import UnknownTunnel.Admin.SavedConfig
import UnknownTunnel.Foundation.Trimmed

/-!
# Starting a tunnel from its files

`run` and `check` load a configuration and then the secret it names. Both were
left by `Setup` or `Edit`: the configuration in its normal form, and the secret
as a line of its own file, or as it was found there.

## Implementation notes

A command counts as having saved once the configuration is renamed into place,
also if what follows fails. `run` and `check` are started in a directory of their
own, the root in the case of the unit, so that a relative path can name another
file there than it named to `Setup`. Flags are given by their values, and the
warning about the mode of the secret's file is left out.
-/

namespace UnknownTunnel.Admin

open Foundation ConfigFile

variable (sys : System)

/-! ## Loading -/

/-- `ReadSecret` with the secret it returns. -/
def readSecretBytes (path : Bytes) (files : Table Bytes Bytes) : Except SecretError Bytes :=
  match readFile sys path files with
  | none => .error .read
  | some data =>
      match secretLength (Text.trimSpace data) with
      | some error => .error error
      | none => .ok (Text.trimSpace data)

/-- Why the tunnel is not started. -/
inductive StartError
  | configRequired
  | load (error : LoadError)
  | secret (error : SecretError)
  deriving DecidableEq

/-- The configuration, and the secret that it names. -/
def loadConfigAndSecret (path : Bytes) (files : Table Bytes Bytes) :
    Except StartError (Config × Bytes) :=
  match load sys path files with
  | .error error => .error (.load error)
  | .ok cfg =>
      match readSecretBytes sys cfg.auth.secretFile files with
      | .error error => .error (.secret error)
      | .ok secret => .ok (cfg, secret)

/-- What `run` makes the application of. -/
def runCommand (config : Bytes) (files : Table Bytes Bytes) : Except StartError (Config × Bytes) :=
  if config = [] then .error .configRequired else loadConfigAndSecret sys config files

/-- The line for a valid configuration. -/
def validLine (cfg : Config) : Bytes :=
  ofString "configuration is valid: node=" ++ cfg.nodeID ++ ofString " role=" ++ cfg.role ++
    ofString " transport=" ++ cfg.transport.mode ++ [10]

/-- What `check` prints. -/
def checkCommand (config : Bytes) (files : Table Bytes Bytes) : Except StartError Bytes :=
  if config = [] then .error .configRequired
  else
    match loadConfigAndSecret sys config files with
    | .error error => .error error
    | .ok (cfg, _) => .ok (validLine cfg)

/-- The secret that was chosen: a new one, or the one found in its file. -/
def Answers.chosen (a : Answers) (files : Table Bytes Bytes) : Except SecretError Bytes :=
  match a.plan.secret with
  | some secret => .ok (Text.trimSpace secret)
  | none => readSecretBytes sys a.plan.path files

/-- The host as a command that is started in a directory finds it. -/
def System.startedIn (dir : Bytes) : System := { sys with workDir := dir }

/-- What the answers and the host have to allow for a start in a directory: valid
strings, a configuration that is read back from its encoding, and two files that
can be read and are found from the directory, as they are under absolute paths. -/
structure Answers.Storable (dir : Bytes) (a : Answers) : Prop where
  textual : Textual a.configured
  lowers : LowersValid sys.lib a.configured
  roundTrips : RoundTrips sys (a.configured.normalize sys.lib)
  config : sys.unreadable (locate sys (configPath sys a.instanceName)) = false
  secret : sys.unreadable (locate sys a.plan.path) = false
  apart : locate sys (configPath sys a.instanceName) ≠ locate sys a.plan.path
  configFound : locate (sys.startedIn dir) (configPath sys a.instanceName) =
    locate sys (configPath sys a.instanceName)
  secretFound : locate (sys.startedIn dir) a.plan.path = locate sys a.plan.path

variable {sys}

theorem locate_startedIn {path : Bytes} (habsolute : path.head? = some 47) (dir : Bytes) :
    locate (sys.startedIn dir) path = locate sys path := by
  rw [locate, locate, if_pos habsolute, if_pos habsolute]

/-- A file that is found from a directory is the same file there. -/
theorem readFile_startedIn {dir path : Bytes}
    (hfound : locate (sys.startedIn dir) path = locate sys path) (files : Table Bytes Bytes) :
    readFile (sys.startedIn dir) path files = readFile sys path files := by
  rw [readFile, readFile, hfound]
  rfl

theorem loadConfigAndSecret_startedIn {dir path : Bytes} {files : Table Bytes Bytes}
    (hconfig : locate (sys.startedIn dir) path = locate sys path)
    (hsecret : ∀ cfg, load sys path files = .ok cfg →
      locate (sys.startedIn dir) cfg.auth.secretFile = locate sys cfg.auth.secretFile) :
    loadConfigAndSecret (sys.startedIn dir) path files = loadConfigAndSecret sys path files := by
  have hload : load (sys.startedIn dir) path files = load sys path files := by
    rw [load, load, readFile_startedIn hconfig]
    rfl
  rw [loadConfigAndSecret, loadConfigAndSecret, hload]
  cases hcfg : load sys path files with
  | error error => rfl
  | ok cfg =>
      simp only [readSecretBytes, readFile_startedIn (hsecret cfg hcfg)]

theorem readFile_of_readable {path : Bytes} (hread : sys.unreadable (locate sys path) = false)
    (files : Table Bytes Bytes) :
    readFile sys path files = Finmap.lookup (locate sys path) files := by
  rw [readFile, hread, if_neg Bool.false_ne_true]

/-- A secret is read back from the line that was written for it. -/
theorem readSecretBytes_of_secretData {path secret : Bytes} {files : Table Bytes Bytes}
    (hread : sys.unreadable (locate sys path) = false)
    (hdata : Finmap.lookup (locate sys path) files = some (secretData secret))
    (hlength : secretLength (Text.trimSpace secret) = none) :
    readSecretBytes sys path files = .ok (Text.trimSpace secret) := by
  have htrim : Text.trimSpace (secretData secret) = Text.trimSpace secret :=
    (Text.trimmed_trimSpace secret).trimSpace_line
  have hfile : readFile sys path files = some (secretData secret) :=
    (readFile_of_readable hread files).trans hdata
  simp only [readSecretBytes, hfile, htrim, hlength]

theorem readSecretBytes_of_readSecret {path : Bytes} {files : Table Bytes Bytes}
    (h : readSecret sys path files = none) :
    ∃ secret, readSecretBytes sys path files = .ok secret := by
  unfold readSecret at h
  cases hfile : readFile sys path files with
  | none =>
      rw [hfile] at h
      cases h
  | some data =>
      rw [hfile] at h
      exact ⟨Text.trimSpace data, by simp only [readSecretBytes, hfile, h]⟩

theorem configPath_ne_nil (sys : System) (instanceName : Bytes) :
    configPath sys instanceName ≠ [] :=
  Text.join_ne_nil _ (List.append_ne_nil_of_right_ne_nil _ (by decide))

/-! ## What the answers say about the secret -/

/-- A secret that is not to be written was found usable. -/
def PlansUsable (sys : System) (m : Dialogue SecretPlan) : Prop :=
  ∀ h plan h', m h = .ok plan h' → plan.secret = none → readSecret sys plan.path h.files = none

theorem plansUsable_keepSecret (path : Bytes) : PlansUsable sys (keepSecret sys path) := by
  intro h plan h' hplan _
  obtain ⟨_, _, ⟨⟩, hplan⟩ := bind_eq_ok hplan
  cases hread : readSecret sys path h.files with
  | some error =>
      rw [hread] at hplan
      cases hplan
  | none =>
      rw [hread] at hplan
      cases hplan
      exact hread

theorem plansUsable_useSecretFile (default : Bytes) :
    PlansUsable sys (useSecretFile sys default) := by
  intro h plan h' hplan hsecret
  obtain ⟨path, h₁, hpath, hplan⟩ := bind_eq_ok hplan
  have hfiles : h₁.files = h.files :=
    congrArg Prod.fst ((keeps_of_reads (reads_ask _ _)).ok hpath)
  -- from here on the file is treated as one that is kept
  obtain ⟨_, _, ⟨⟩, hplan⟩ := bind_eq_ok hplan
  rw [← hfiles]
  cases hread : readSecret sys path h₁.files with
  | some error =>
      rw [hread] at hplan
      cases hplan
  | none =>
      rw [hread] at hplan
      cases hplan
      exact hread

theorem plansUsable_pasteSecret (defaultPath : Bytes) :
    PlansUsable sys (pasteSecret defaultPath) := by
  intro h plan h' hplan hsecret
  obtain ⟨secret, h₁, -, hplan⟩ := bind_eq_ok hplan
  split at hplan
  · cases hplan
  · obtain ⟨path, h₂, -, hplan⟩ := bind_eq_ok hplan
    cases hplan
    cases hsecret

theorem plansUsable_generateSecret (defaultPath : Bytes) :
    PlansUsable sys (generateSecret sys defaultPath) := by
  intro h plan h' hplan hsecret
  unfold generateSecret at hplan
  cases hrandom : sys.random with
  | none =>
      rw [hrandom] at hplan
      cases hplan
  | some secret =>
      rw [hrandom] at hplan
      obtain ⟨path, h₁, -, hplan⟩ := bind_eq_ok hplan
      obtain ⟨_, _, ⟨⟩, hplan⟩ := bind_eq_ok hplan
      obtain ⟨overwrite, h₂, -, hplan⟩ := bind_eq_ok hplan
      split at hplan
      · cases hplan
        cases hsecret
      · cases hplan

theorem plansUsable_planSecret (instanceName : Bytes) (cfg : Config) (editing : Bool) :
    PlansUsable sys (planSecret sys instanceName cfg editing) := by
  intro h plan h' hplan hsecret
  obtain ⟨action, h₁, haction, hplan⟩ := bind_eq_ok hplan
  have hfiles : h₁.files = h.files :=
    congrArg Prod.fst ((keeps_of_reads (reads_ask _ _)).ok haction)
  rw [← hfiles]
  split at hplan
  · exact plansUsable_keepSecret _ _ _ _ hplan hsecret
  split at hplan
  · exact plansUsable_useSecretFile _ _ _ _ hplan hsecret
  split at hplan
  · exact plansUsable_pasteSecret _ _ _ _ hplan hsecret
  split at hplan
  · exact plansUsable_generateSecret _ _ _ _ hplan hsecret
  · cases hplan

theorem readSecret_of_questions {instanceName : Bytes} {current : Option Config} {a : Answers}
    {h h' : Host} (hask : questions sys instanceName current h = .ok a h')
    (hsecret : a.plan.secret = none) : readSecret sys a.plan.path h.files = none := by
  obtain ⟨cfg, h₁, hdraft, hask⟩ := bind_eq_ok hask
  have hfiles : h₁.files = h.files :=
    congrArg Prod.fst ((keeps_of_reads (reads_draft sys _ _)).ok hdraft)
  obtain ⟨plan, h₂, hplan, hask⟩ := bind_eq_ok hask
  cases hask
  rw [← hfiles]
  exact plansUsable_planSecret _ _ _ _ _ _ hplan hsecret

/-! ## What a command that has saved leaves -/

/-- The files once the secret is written. -/
def secretWritten (sys : System) (plan : SecretPlan) (files : Table Bytes Bytes) :
    Table Bytes Bytes :=
  match plan.secret with
  | some secret => files.insert (locate sys plan.path) (secretData secret)
  | none => files

theorem finish_saved {a : Answers} {h : Host} (hunsaved : h.saved = false)
    (hsaved : (finalState (finish sys a h)).saved = true) :
    a.configured.Accepted sys.lib ∧
      (finalState (finish sys a h)).files =
        h.files.insert (locate sys (configPath sys a.instanceName))
          (sys.encode ((a.configured.normalize sys.lib).normalize sys.lib) ++ [10]) := by
  rcases finish_cases sys a h with ⟨haccepted, hsaves, -⟩ | ⟨-, error, herror⟩
  · refine ⟨haccepted, ?_⟩
    have hfinish : finish sys a =
        save sys (configPath sys a.instanceName) (a.configured.normalize sys.lib) :=
      if_pos haccepted
    rw [hfinish, save_of_accepted hsaves.1, replaceFile_of_renames hsaves.2]
    split <;> rfl
  · rw [herror] at hsaved
    exact absurd (hsaved.symm.trans hunsaved) (by decide)

/-- Writing a secret puts it in place or ends the command before it has saved. -/
theorem applySecret_saved (sys : System) {plan : SecretPlan} {secret : Bytes}
    (hsecret : plan.secret = some secret) {h : Host} (hunsaved : h.saved = false) :
    (secretLength (Text.trimSpace secret) = none ∧
      applySecret sys plan h =
        .ok () (h.replaced false (locate sys plan.path) (secretData secret))) ∨
    ∃ error h', applySecret sys plan h = .error error h' ∧ h'.saved = false := by
  by_cases hw : WritesSecret sys plan secret
  · rw [applySecret_of_writes hw]
    split
    · exact Or.inl ⟨hw.2.1, rfl⟩
    · exact Or.inr ⟨_, _, rfl, by simp [Host.replaced, hunsaved]⟩
  · right
    cases hlength : secretLength (Text.trimSpace secret) with
    | some error =>
        refine ⟨.error (.secret error), h, ?_, hunsaved⟩
        simp only [applySecret, hsecret, writeSecret, hlength]
        rfl
    | none =>
        have hio : ¬ Renames sys.secretIO := fun hio => hw ⟨hsecret, hlength, hio⟩
        rw [applySecret_of_length hsecret hlength]
        obtain ⟨error, herror⟩ := replaceFile_of_not_renames hio false plan.path _ h
        exact ⟨_, h, herror, hunsaved⟩

/-- A commit that has saved has written the secret before. -/
theorem commit_saved {a : Answers} {h : Host} (hunsaved : h.saved = false)
    (hsaved : (finalState (commit sys a h)).saved = true) :
    a.configured.Accepted sys.lib ∧
      (∀ secret, a.plan.secret = some secret → secretLength (Text.trimSpace secret) = none) ∧
      (finalState (commit sys a h)).files =
        (secretWritten sys a.plan h.files).insert (locate sys (configPath sys a.instanceName))
          (sys.encode ((a.configured.normalize sys.lib).normalize sys.lib) ++ [10]) := by
  cases hsecret : a.plan.secret with
  | none =>
      have happly : applySecret sys a.plan h = .ok () h := by
        simp only [applySecret, hsecret]
        rfl
      rw [commit, bind_of_ok happly] at hsaved ⊢
      obtain ⟨haccepted, hfiles⟩ := finish_saved hunsaved hsaved
      refine ⟨haccepted, (fun secret hs => by cases hs), ?_⟩
      rw [hfiles, secretWritten, hsecret]
  | some secret =>
      rcases applySecret_saved sys hsecret hunsaved with
        ⟨hlength, happly⟩ | ⟨error, h', happly, hstill⟩
      · rw [commit, bind_of_ok happly] at hsaved ⊢
        obtain ⟨haccepted, hfiles⟩ := finish_saved (by simp [Host.replaced, hunsaved]) hsaved
        refine ⟨haccepted, ?_, ?_⟩
        · rintro _ ⟨⟩
          exact hlength
        · rw [hfiles, secretWritten, hsecret]
          rfl
      · rw [commit, bind_of_error happly] at hsaved
        exact absurd (hsaved.symm.trans hstill) (by decide)

/-- A command that has saved got its answers and has committed them. -/
theorem committed_of_saved {ask : Dialogue Answers} {tail : Answers → Dialogue Unit}
    (hask : Keeps Host.disk ask) (htail : ∀ a, Keeps Host.disk (tail a)) {h : Host}
    (hunsaved : h.saved = false)
    (hsaved : (finalState ((ask >>= fun a => commit sys a >>= fun _ => tail a) h)).saved = true) :
    ∃ a h', ask h = .ok a h' ∧ h'.disk = h.disk ∧
      (finalState ((ask >>= fun a => commit sys a >>= fun _ => tail a) h)).disk =
        (finalState (commit sys a h')).disk := by
  rcases bind_cases ask (fun a => commit sys a >>= fun _ => tail a) h with
    ⟨error, h', hfail, hbind⟩ | ⟨a, h', hanswer, hbind⟩
  · have hdisk : h'.disk = h.disk := hask.error hfail
    rw [hbind] at hsaved
    exact absurd (hsaved.symm.trans ((congrArg Prod.snd hdisk).trans hunsaved)) (by decide)
  · refine ⟨a, h', hanswer, hask.ok hanswer, ?_⟩
    rw [hbind]
    rcases bind_cases (commit sys a) (fun _ => tail a) h' with
      ⟨error, h₂, hcommit, hbind⟩ | ⟨_, h₂, hcommit, hbind⟩
    · rw [hbind, hcommit]
    · rw [hbind, hcommit]
      exact htail a h₂

/-- The files of a commit are loaded again. -/
theorem load_of_commit (hL : sys.lib.Lowers) {a : Answers} {h : Host}
    (hunsaved : h.saved = false) (hsaved : (finalState (commit sys a h)).saved = true)
    (hkept : a.plan.secret = none → readSecret sys a.plan.path h.files = none)
    {dir : Bytes} (hs : a.Storable sys dir) :
    ∃ cfg secret,
      loadConfigAndSecret (sys.startedIn dir) (configPath sys a.instanceName)
        (finalState (commit sys a h)).files = .ok (cfg, secret) ∧
      (a.configured.normalize sys.lib).Reordered cfg ∧ a.chosen sys h.files = .ok secret := by
  obtain ⟨haccepted, hlength, hfiles⟩ := commit_saved hunsaved hsaved
  -- the configuration
  have hfixed : (a.configured.normalize sys.lib).normalize sys.lib =
      a.configured.normalize sys.lib := (Config.Reordered.refl _).normalize_eq hL
  obtain ⟨cfg, hdecode, hr⟩ := hs.roundTrips (textual_normalize hL.toStandard hs.lowers hs.textual)
  have hload : load sys (configPath sys a.instanceName) (finalState (commit sys a h)).files =
      .ok cfg := by
    rw [hfiles, hfixed, ← hr.normalize_eq hL]
    exact load_of_content hs.config (Finmap.lookup_insert _) hdecode
      ((hr.accepted_iff hL).mpr haccepted)
  have hpath : cfg.auth.secretFile = a.plan.path := by
    rw [hr.rest]
    rfl
  -- the secret
  have hlookup : Finmap.lookup (locate sys a.plan.path) (finalState (commit sys a h)).files =
      Finmap.lookup (locate sys a.plan.path) (secretWritten sys a.plan h.files) := by
    rw [hfiles, Finmap.lookup_insert_of_ne _ hs.apart.symm]
  have hsecret : ∃ secret, a.chosen sys h.files = .ok secret ∧
      readSecretBytes sys a.plan.path (finalState (commit sys a h)).files = .ok secret := by
    cases hnew : a.plan.secret with
    | some secret =>
        refine ⟨Text.trimSpace secret, by simp only [Answers.chosen, hnew], ?_⟩
        refine readSecretBytes_of_secretData hs.secret ?_ (hlength secret hnew)
        rw [hlookup, secretWritten, hnew]
        exact Finmap.lookup_insert _
    | none =>
        obtain ⟨secret, hread⟩ := readSecretBytes_of_readSecret (hkept hnew)
        refine ⟨secret, by simp only [Answers.chosen, hnew, hread], ?_⟩
        have hsame : readFile sys a.plan.path (finalState (commit sys a h)).files =
            readFile sys a.plan.path h.files := by
          rw [readFile_of_readable hs.secret, readFile_of_readable hs.secret, hlookup,
            secretWritten, hnew]
        rw [readSecretBytes, hsame]
        exact hread
  obtain ⟨secret, hchosen, hread⟩ := hsecret
  refine ⟨cfg, secret, ?_, hr, hchosen⟩
  rw [loadConfigAndSecret_startedIn hs.configFound, loadConfigAndSecret, hload]
  · simp only [hpath, hread]
  · intro cfg' hload'
    obtain rfl := Except.ok.inj (hload.symm.trans hload')
    rw [hpath]
    exact hs.secretFound

/-! ## Whole commands -/

/-- If a command has saved, the tunnel starts with the configuration and the
secret of the answers, in any directory from which both files are found. -/
def Starts (sys : System) (ask : Dialogue Answers) (command : Dialogue Unit)
    (input : List (Option Bytes)) (files : Table Bytes Bytes) : Prop :=
  (finalState (command ⟨input, files, false⟩)).saved = true →
    ∃ a h, ask ⟨input, files, false⟩ = .ok a h ∧
      ∀ dir, a.Storable sys dir → ∃ cfg secret,
        runCommand (sys.startedIn dir) (configPath sys a.instanceName)
          (finalState (command ⟨input, files, false⟩)).files = .ok (cfg, secret) ∧
        checkCommand (sys.startedIn dir) (configPath sys a.instanceName)
          (finalState (command ⟨input, files, false⟩)).files = .ok (validLine cfg) ∧
        (a.configured.normalize sys.lib).Reordered cfg ∧ a.chosen sys files = .ok secret

theorem starts_of_answers (hL : sys.lib.Lowers) {ask : Dialogue Answers}
    {tail : Answers → Dialogue Unit} (hask : Keeps Host.disk ask)
    (htail : ∀ a, Keeps Host.disk (tail a))
    (hkept : ∀ {h a h'}, ask h = .ok a h' → a.plan.secret = none →
      readSecret sys a.plan.path h.files = none)
    (input : List (Option Bytes)) (files : Table Bytes Bytes) :
    Starts sys ask (ask >>= fun a => commit sys a >>= fun _ => tail a) input files := by
  intro hsaved
  obtain ⟨a, h, hanswer, hdisk, hend⟩ := committed_of_saved hask htail rfl hsaved
  have hfiles : h.files = files := congrArg Prod.fst hdisk
  have hunsaved : h.saved = false := congrArg Prod.snd hdisk
  refine ⟨a, h, hanswer, fun dir hs => ?_⟩
  have hcommitted : (finalState (commit sys a h)).saved = true :=
    (congrArg Prod.snd hend).symm.trans hsaved
  obtain ⟨cfg, secret, hload, hr, hchosen⟩ := load_of_commit hL hunsaved hcommitted
    (fun hnone => hfiles ▸ hkept hanswer hnone) hs
  have hsame : (finalState ((ask >>= fun a => commit sys a >>= fun _ => tail a)
      ⟨input, files, false⟩)).files = (finalState (commit sys a h)).files :=
    congrArg Prod.fst hend
  refine ⟨cfg, secret, ?_, ?_, hr, hfiles ▸ hchosen⟩
  · rw [hsame, runCommand, if_neg (configPath_ne_nil sys _), hload]
  · simp only [hsame, checkCommand, if_neg (configPath_ne_nil sys _), hload]

/-- A tunnel that `Edit` or `Setup` has saved passes `check` and is started by
`run` with the normal form of the configuration that was answered and with the
secret that was chosen, whatever becomes of the service, in every directory in
which the paths of the two files name them. -/
theorem saved_tunnel_starts (sys : System) (hL : sys.lib.Lowers) (instanceName : Bytes)
    (input : List (Option Bytes)) (files : Table Bytes Bytes) :
    Starts sys (editAnswers sys instanceName) (edit sys instanceName) input files ∧
    Starts sys (setupAnswers sys instanceName) (setup sys instanceName) input files := by
  constructor
  · rw [edit_eq]
    refine starts_of_answers hL ?_ (fun _ => keeps_of_reads (reads_endEdit sys instanceName))
      ?_ input files
    · exact Keeps.bind (keeps_of_reads (reads_beginEdit sys _)) fun _ => keeps_questions sys _ _
    · intro h a h' hask hnone
      obtain ⟨current, h₁, hbegin, hask⟩ := bind_eq_ok hask
      have hdisk := (keeps_of_reads (reads_beginEdit sys instanceName)).ok hbegin
      have hfiles : h₁.files = h.files := congrArg Prod.fst hdisk
      exact hfiles ▸ readSecret_of_questions hask hnone
  · rw [setup_eq]
    refine starts_of_answers hL ?_ (fun _ => keeps_of_reads (reads_endSetup sys)) ?_ input files
    · exact Keeps.bind (keeps_of_reads (reads_beginSetup sys _)) fun _ => keeps_questions sys _ _
    · intro h a h' hask hnone
      obtain ⟨name, h₁, hbegin, hask⟩ := bind_eq_ok hask
      have hdisk := (keeps_of_reads (reads_beginSetup sys instanceName)).ok hbegin
      have hfiles : h₁.files = h.files := congrArg Prod.fst hdisk
      exact hfiles ▸ readSecret_of_questions hask hnone

/-- A secret is pasted for the file `/key`, and every other question is answered
by its default. -/
def pastedInput : List (Option Bytes) :=
  List.replicate 18 (some []) ++ [ofString "paste", List.replicate 32 121, ofString "/key"].map some

/-- The answers of `pastedInput`, as far as starting depends on them. -/
def pasted : EStateM.Result Stop Host Answers → Bool
  | .ok a _ =>
      decide (Textual a.configured ∧ LowersValid sampleLibrary a.configured ∧
        a.instanceName = ofString "a" ∧ a.plan.path = ofString "/key" ∧
        a.plan.secret = some (List.replicate 32 121))
  | .error _ _ => false

theorem saved_tunnel_starts_pasted :
    ∃ cfg, runCommand (sampleSystem.startedIn (ofString "/root"))
      (configPath sampleSystem (ofString "a"))
      (finalState (edit sampleSystem (ofString "a")
        ⟨pastedInput, sampleFiles, false⟩)).files = .ok (cfg, List.replicate 32 121) := by
  have hsaved : (finalState (edit sampleSystem (ofString "a")
      ⟨pastedInput, sampleFiles, false⟩)).saved = true := by decide +kernel
  have hpasted : pasted (editAnswers sampleSystem (ofString "a")
      ⟨pastedInput, sampleFiles, false⟩) = true := by decide +kernel
  obtain ⟨a, h, hask, hstart⟩ := (saved_tunnel_starts sampleSystem
    sampleLibrary_lowers (ofString "a") pastedInput sampleFiles).1 hsaved
  rw [hask] at hpasted
  obtain ⟨htextual, hlowers, hname, hpath, hsecret⟩ := of_decide_eq_true hpasted
  have happart : locate sampleSystem
      (configPath sampleSystem (ofString "a")) ≠
        locate sampleSystem (ofString "/key") := by decide +kernel
  have hstorable : a.Storable sampleSystem (ofString "/root") := by
    refine ⟨htextual, hlowers, fun _ => ?_, rfl, rfl, ?_, ?_, ?_⟩
    · exact ⟨_, sampleSystem_decode _, Config.Reordered.refl _⟩
    · rw [hname, hpath]
      exact happart
    · rw [hname]
      exact locate_startedIn (by decide +kernel) _
    · rw [hpath]
      exact locate_startedIn (by decide +kernel) _
  obtain ⟨cfg, secret, hrun, -, -, hchosen⟩ := hstart _ hstorable
  rw [hname] at hrun
  have htrim : Text.trimSpace (List.replicate 32 121) = List.replicate 32 121 := by decide +kernel
  simp only [Answers.chosen, hsecret, htrim] at hchosen
  obtain rfl := Except.ok.inj hchosen
  exact ⟨cfg, hrun⟩

end UnknownTunnel.Admin
