import UnknownTunnel.Admin.Commands
import UnknownTunnel.ConfigFile.Encoding

/-!
# Replacing a secret without saving the configuration

A command that fails before it has saved should leave every file as it was.
The questions write nothing, but the secret is written before the
configuration is validated and saved. What remains of a failed command is
therefore decided by the answers: if they replace an existing secret, all that
follows has to succeed.

## Implementation notes

Both commands are questions, a commit and the treatment of the service. The
questions and the service keep the disk, so that only the commit is examined.
-/

namespace UnknownTunnel.Admin

open Foundation ConfigFile

/-! ## Questions and commit -/

/-- What the operator's answers ask for. -/
structure Answers where
  instanceName : Bytes
  config : Config
  plan : SecretPlan

/-- The drafted configuration with its secret file. -/
def Answers.configured (a : Answers) : Config := { a.config with auth := ⟨a.plan.path⟩ }

variable (sys : System)

/-- The questions of the wizard. -/
def questions (instanceName : Bytes) (current : Option Config) : Dialogue Answers := do
  let cfg ← draft sys instanceName current
  let plan ← planSecret sys instanceName cfg current.isSome
  pure ⟨instanceName, cfg, plan⟩

/-- What is left of the wizard and of saving once the secret is written. -/
def finish (a : Answers) : Dialogue Unit :=
  if (a.configured.validate sys.lib).1 = [] then
    save sys (configPath sys a.instanceName) (a.configured.normalize sys.lib)
  else stop (.generatedInvalid (a.configured.validate sys.lib).1)

/-- The secret is written before the configuration is checked and saved. -/
def commit (a : Answers) : Dialogue Unit := do
  applySecret sys a.plan
  finish sys a

/-- The questions of `Edit`, with the configuration that they start from. -/
def editAnswers (instanceName : Bytes) : Dialogue Answers := do
  let current ← beginEdit sys instanceName
  questions sys instanceName (some current)

/-- The questions of `Setup`. -/
def setupAnswers (instanceName : Bytes) : Dialogue Answers := do
  let name ← beginSetup sys instanceName
  questions sys name none

theorem wizard_save_eq (instanceName : Bytes) (current : Option Config) :
    (wizard sys instanceName current >>= fun result =>
      save sys (configPath sys instanceName) result.1) =
      questions sys instanceName current >>= commit sys := by
  simp only [wizard, configureSecret, questions, commit, bind_assoc, pure_bind]
  refine bind_congr fun cfg => ?_
  refine bind_congr fun plan => ?_
  refine bind_congr fun _ => ?_
  by_cases herrors : (({ cfg with auth := ⟨plan.path⟩ } : Config).validate sys.lib).1 = []
  · simp only [finish, Answers.configured, herrors, if_true, pure_bind]
    rfl
  · simp only [finish, Answers.configured, herrors, if_false]
    rfl

theorem edit_eq (instanceName : Bytes) :
    edit sys instanceName = editAnswers sys instanceName >>= fun a =>
      commit sys a >>= fun _ => endEdit sys instanceName := by
  have hsplit (current : Config) := wizard_save_eq sys instanceName (some current)
  simp only [edit, editAnswers, bind_assoc]
  refine bind_congr fun current => ?_
  rw [← bind_assoc, ← bind_assoc, ← hsplit current]

theorem setup_eq (instanceName : Bytes) :
    setup sys instanceName = setupAnswers sys instanceName >>= fun a =>
      commit sys a >>= fun _ => endSetup sys := by
  simp only [setup, setupAnswers, bind_assoc]
  refine bind_congr fun name => ?_
  rw [← bind_assoc, ← bind_assoc, ← wizard_save_eq sys name none]

theorem keeps_questions (instanceName : Bytes) (current : Option Config) :
    Keeps Host.disk (questions sys instanceName current) := by
  refine Keeps.bind (keeps_of_reads (reads_draft sys _ _)) fun cfg => ?_
  exact Keeps.bind (keeps_of_reads (reads_planSecret sys _ _ _)) fun plan => Keeps.pure _

/-! ## Commands that leave the files alone -/

/-- Every file that was there has its content. -/
def Unharmed (files after : Table Bytes Bytes) : Prop :=
  ∀ path content, Finmap.lookup path files = some content →
    Finmap.lookup path after = some content

/-- A result that is an error before saving leaves every file as it was. -/
def Spares (files : Table Bytes Bytes) (result : EStateM.Result Stop Host Unit) : Prop :=
  ∀ error h, result = .error (.error error) h → h.saved = false → Unharmed files h.files

/-- A command either saves or, when it returns an error, changes no file. -/
def AllOrNothing (command : Dialogue Unit) (input : List (Option Bytes))
    (files : Table Bytes Bytes) : Prop :=
  Spares files (command ⟨input, files, false⟩)

theorem spares_of_saved {files : Table Bytes Bytes} {result : EStateM.Result Stop Host Unit}
    (hsaved : (finalState result).saved = true) : Spares files result := by
  rintro error h rfl hunsaved
  exact absurd (hsaved.symm.trans hunsaved) (by decide)

theorem spares_error_iff {files : Table Bytes Bytes} {error : AdminError} {h : Host}
    (hunsaved : h.saved = false) :
    Spares files (.error (.error error) h) ↔ Unharmed files h.files := by
  constructor
  · intro hspares
    exact hspares error h rfl hunsaved
  · rintro hunharmed _ _ ⟨⟩ -
    exact hunharmed

/-! ## The commit -/

/-- A secret is written to its file. -/
def WritesSecret (plan : SecretPlan) (secret : Bytes) : Prop :=
  plan.secret = some secret ∧ secretLength (Text.trimSpace secret) = none ∧
    Renames sys.secretIO

/-- The content of a secret's file. -/
def secretData (secret : Bytes) : Bytes := Text.trimSpace secret ++ [10]

/-- A secret replaces another one. -/
def Replaces (files : Table Bytes Bytes) (plan : SecretPlan) : Prop :=
  ∃ secret, WritesSecret sys plan secret ∧
    ∃ old, Finmap.lookup (locate sys plan.path) files = some old ∧ old ≠ secretData secret

/-- Everything after the renaming of the secret goes well, up to the renaming
of the configuration. -/
def Commits (a : Answers) : Prop :=
  sys.secretIO .chmod = true ∧ a.configured.Accepted sys.lib ∧
    Saves sys (a.configured.normalize sys.lib)

variable {sys}

theorem applySecret_of_length {plan : SecretPlan} {secret : Bytes}
    (hsecret : plan.secret = some secret) (hlength : secretLength (Text.trimSpace secret) = none)
    (h : Host) :
    applySecret sys plan h =
      replaceFile sys sys.secretIO false plan.path (secretData secret) h := by
  simp only [applySecret, hsecret, writeSecret, hlength]
  rfl

theorem applySecret_of_writes {plan : SecretPlan} {secret : Bytes}
    (hw : WritesSecret sys plan secret) (h : Host) :
    applySecret sys plan h =
      if sys.secretIO .chmod then
        .ok () (h.replaced false (locate sys plan.path) (secretData secret))
      else .error (.error (.file .chmod))
        (h.replaced false (locate sys plan.path) (secretData secret)) := by
  obtain ⟨hsecret, hlength, hio⟩ := hw
  rw [applySecret_of_length hsecret hlength, replaceFile_of_renames hio]

theorem applySecret_of_not_writes {plan : SecretPlan}
    (hw : ∀ secret, ¬ WritesSecret sys plan secret) (h : Host) :
    applySecret sys plan h = .ok () h ∨
      ∃ error, applySecret sys plan h = .error (.error error) h := by
  cases hsecret : plan.secret with
  | none =>
      left
      simp only [applySecret, hsecret]
      rfl
  | some secret =>
      right
      cases hlength : secretLength (Text.trimSpace secret) with
      | some error =>
          refine ⟨.secret error, ?_⟩
          simp only [applySecret, hsecret, writeSecret, hlength]
          rfl
      | none =>
          have hio : ¬ Renames sys.secretIO := fun hio => hw secret ⟨hsecret, hlength, hio⟩
          rw [applySecret_of_length hsecret hlength]
          exact replaceFile_of_not_renames hio _ _ _ _

theorem finish_cases (sys : System) (a : Answers) (h : Host) :
    (a.configured.Accepted sys.lib ∧ Saves sys (a.configured.normalize sys.lib) ∧
      (finalState (finish sys a h)).saved = true) ∨
    (¬ (a.configured.Accepted sys.lib ∧ Saves sys (a.configured.normalize sys.lib)) ∧
      ∃ error, finish sys a h = .error (.error error) h) := by
  by_cases haccepted : a.configured.Accepted sys.lib
  · have hfinish : finish sys a =
        save sys (configPath sys a.instanceName) (a.configured.normalize sys.lib) :=
      if_pos haccepted
    rw [hfinish]
    by_cases hsaves : Saves sys (a.configured.normalize sys.lib)
    · exact Or.inl ⟨haccepted, hsaves, save_of_saves hsaves _ h⟩
    · exact Or.inr ⟨fun hboth => hsaves hboth.2, save_of_not_saves hsaves _ h⟩
  · have hfinish : finish sys a =
        stop (.generatedInvalid (a.configured.validate sys.lib).1) := if_neg haccepted
    rw [hfinish]
    exact Or.inr ⟨fun hboth => haccepted hboth.1, _, rfl⟩

/-- Writing a secret harms the files exactly if it replaces another one. -/
theorem unharmed_replaced_iff {plan : SecretPlan} {secret : Bytes}
    (hw : WritesSecret sys plan secret) (h : Host) :
    Unharmed h.files (h.replaced false (locate sys plan.path) (secretData secret)).files ↔
      ¬ Replaces sys h.files plan := by
  constructor
  · rintro hunharmed ⟨other, hother, old, hold, hne⟩
    have hsame : other = secret := Option.some.inj (hother.1.symm.trans hw.1)
    have hnew := hunharmed _ _ hold
    rw [Host.replaced, Finmap.lookup_insert] at hnew
    exact hne (by rw [hsame]; exact (Option.some.inj hnew).symm)
  · intro hnot path content hcontent
    by_cases hpath : path = locate sys plan.path
    · subst hpath
      rw [Host.replaced, Finmap.lookup_insert]
      by_contra hne
      exact hnot ⟨secret, hw, content, hcontent, fun heq => hne (by rw [heq])⟩
    · rw [Host.replaced, Finmap.lookup_insert_of_ne _ hpath]
      exact hcontent

/-- A commit that does not save is an error, after the secret or without it. -/
theorem commit_cases (sys : System) (a : Answers) (h : Host) :
    (finalState (commit sys a h)).saved = true ∧
        ((∃ secret, WritesSecret sys a.plan secret) → Commits sys a) ∨
      (∃ error, commit sys a h = .error (.error error) h) ∧
        (∀ secret, ¬ WritesSecret sys a.plan secret) ∨
      ∃ secret error, WritesSecret sys a.plan secret ∧ ¬ Commits sys a ∧
        commit sys a h = .error (.error error)
          (h.replaced false (locate sys a.plan.path) (secretData secret)) := by
  by_cases hw : ∃ secret, WritesSecret sys a.plan secret
  · obtain ⟨secret, hw⟩ := hw
    have happly := applySecret_of_writes hw h
    by_cases hchmod : sys.secretIO .chmod = true
    · rw [if_pos hchmod] at happly
      rw [commit, bind_of_ok happly]
      rcases finish_cases sys a (h.replaced false (locate sys a.plan.path)
        (secretData secret)) with ⟨haccepted, hsaves, hsaved⟩ | ⟨hnot, error, herror⟩
      · exact Or.inl ⟨hsaved, fun _ => ⟨hchmod, haccepted, hsaves⟩⟩
      · exact Or.inr (Or.inr ⟨secret, error, hw, fun hc => hnot hc.2, herror⟩)
    · rw [if_neg hchmod] at happly
      exact Or.inr (Or.inr ⟨secret, _, hw, fun hc => hchmod hc.1, bind_of_error happly⟩)
  · have hnone : ∀ secret, ¬ WritesSecret sys a.plan secret := fun s hs => hw ⟨s, hs⟩
    rcases applySecret_of_not_writes hnone h with happly | ⟨error, happly⟩
    · rw [commit, bind_of_ok happly]
      rcases finish_cases sys a h with ⟨-, -, hsaved⟩ | ⟨-, herror⟩
      · exact Or.inl ⟨hsaved, fun hsome => absurd hsome hw⟩
      · exact Or.inr (Or.inl ⟨herror, hnone⟩)
    · exact Or.inr (Or.inl ⟨⟨error, bind_of_error happly⟩, hnone⟩)

theorem commit_spares_iff (a : Answers) {h : Host} (hunsaved : h.saved = false) :
    Spares h.files (commit sys a h) ↔ (Replaces sys h.files a.plan → Commits sys a) := by
  rcases commit_cases sys a h with
    ⟨hsaved, hcommits⟩ | ⟨⟨error, herror⟩, hnone⟩ | ⟨secret, error, hw, hnot, herror⟩
  · refine iff_of_true (spares_of_saved hsaved) ?_
    rintro ⟨secret, hw, -⟩
    exact hcommits ⟨secret, hw⟩
  · rw [herror, spares_error_iff hunsaved]
    refine iff_of_true (fun _ _ hcontent => hcontent) ?_
    rintro ⟨secret, hw, -⟩
    exact absurd hw (hnone secret)
  · have hkept : (h.replaced false (locate sys a.plan.path) (secretData secret)).saved = false := by
      simp [Host.replaced, hunsaved]
    rw [herror, spares_error_iff hkept, unharmed_replaced_iff hw]
    exact ⟨fun hno hyes => absurd hyes hno, fun himp hyes => hnot (himp hyes)⟩

theorem saved_of_commit_ok {a : Answers} {h h' : Host} (hok : commit sys a h = .ok () h') :
    h'.saved = true := by
  rcases commit_cases sys a h with
    ⟨hsaved, -⟩ | ⟨⟨error, herror⟩, -⟩ | ⟨secret, error, -, -, herror⟩
  · rw [hok] at hsaved
    exact hsaved
  · rw [hok] at herror
    cases herror
  · rw [hok] at herror
    cases herror

/-! ## Whole commands -/

/-- The service is turned to after saving, and is no matter for the files. -/
theorem spares_commit_bind_iff {tail : Dialogue Unit} (htail : Keeps Host.disk tail)
    (a : Answers) (files : Table Bytes Bytes) (h : Host) :
    Spares files ((commit sys a >>= fun _ => tail) h) ↔ Spares files (commit sys a h) := by
  rcases bind_cases (commit sys a) (fun _ => tail) h with
    ⟨error, h', hcommit, hbind⟩ | ⟨_, h', hcommit, hbind⟩
  · rw [hcommit, hbind]
  · have hsaved : h'.saved = true := saved_of_commit_ok hcommit
    have hend : (finalState (tail h')).saved = true :=
      (congrArg Prod.snd (htail h')).trans hsaved
    rw [hcommit, hbind]
    exact iff_of_true (spares_of_saved hend) (spares_of_saved hsaved)

/-- A command is all or nothing exactly if answers that replace a secret are
followed by a successful commit. -/
theorem allOrNothing_iff {ask : Dialogue Answers} {tail : Answers → Dialogue Unit}
    (hask : Keeps Host.disk ask) (htail : ∀ a, Keeps Host.disk (tail a))
    (input : List (Option Bytes)) (files : Table Bytes Bytes) :
    AllOrNothing (ask >>= fun a => commit sys a >>= fun _ => tail a) input files ↔
      ∀ a h, ask ⟨input, files, false⟩ = .ok a h → Replaces sys files a.plan →
        Commits sys a := by
  unfold AllOrNothing
  rcases bind_cases ask (fun a => commit sys a >>= fun _ => tail a) ⟨input, files, false⟩ with
    ⟨error, h, hfail, hbind⟩ | ⟨a, h, hanswer, hbind⟩
  · rw [hbind, hfail]
    have hdisk : h.disk = (files, false) := hask.error hfail
    refine iff_of_true ?_ fun a h' hok => by cases hok
    rintro e s ⟨⟩ -
    have hfiles : h.files = files := congrArg Prod.fst hdisk
    rw [hfiles]
    exact fun _ _ hcontent => hcontent
  · have hdisk : h.disk = (files, false) := hask.ok hanswer
    have hfiles : h.files = files := congrArg Prod.fst hdisk
    have hunsaved : h.saved = false := congrArg Prod.snd hdisk
    rw [hbind, hanswer, spares_commit_bind_iff (htail a), ← hfiles,
      commit_spares_iff a hunsaved]
    constructor
    · rintro himp b s ⟨⟩
      exact himp
    · intro himp
      exact himp a h rfl

/-- Editing and creating a tunnel are all or nothing exactly for the answers
that replace no secret, or after which the configuration is saved. -/
theorem commands_all_or_nothing_iff (sys : System) (instanceName : Bytes)
    (input : List (Option Bytes)) (files : Table Bytes Bytes) :
    (AllOrNothing (edit sys instanceName) input files ↔
      ∀ a h, editAnswers sys instanceName ⟨input, files, false⟩ = .ok a h →
        Replaces sys files a.plan → Commits sys a) ∧
    (AllOrNothing (setup sys instanceName) input files ↔
      ∀ a h, setupAnswers sys instanceName ⟨input, files, false⟩ = .ok a h →
        Replaces sys files a.plan → Commits sys a) := by
  constructor
  · rw [edit_eq]
    have hend := keeps_of_reads (reads_endEdit sys instanceName)
    refine allOrNothing_iff ?_ (fun _ => hend) input files
    exact Keeps.bind (keeps_of_reads (reads_beginEdit sys _)) fun current => keeps_questions sys _ _
  · rw [setup_eq]
    refine allOrNothing_iff ?_ (fun _ => keeps_of_reads (reads_endSetup sys)) input files
    exact Keeps.bind (keeps_of_reads (reads_beginSetup sys _)) fun name => keeps_questions sys _ _

/-! ## A secret that is lost -/

/-- A host on which every call succeeds. -/
def sampleSystem : System where
  lib := sampleLibrary
  configDir := ofString "/etc/unknowntunnel"
  workDir := ofString "/"
  root := true
  encode := configCodec.write
  decode := configCodec.readLine
  unreadable := fun _ => false
  directory := fun _ => false
  statFails := fun _ => false
  makesConfigDir := true
  random := none
  secretIO := fun _ => true
  saveIO := fun _ => true
  active := true
  reloads := true
  starts := true
  restarts := true

/-- The file of a configuration. -/
def sampleText (c : Config) : Bytes := configCodec.write c ++ [10]

theorem sampleSystem_decode (c : Config) : sampleSystem.decode (sampleText c) = some c :=
  configCodec.readLine_write c

def sampleFiles : Table Bytes Bytes :=
  ((∅ : Table Bytes Bytes).insert (ofString "/etc/unknowntunnel/a.json")
    (sampleText sampleConfig)).insert (ofString "/key") (List.replicate 32 120 ++ [10])

/-- The peer gets the name of the node, a new secret is pasted for the file
`key`, and every other question is answered by its default. -/
def sampleInput : List (Option Bytes) :=
  [[], [], ofString "a"].map some ++ List.replicate 15 (some []) ++
    [ofString "paste", List.replicate 32 121, ofString "key"].map some

/-- A result that is an error before saving, with another content of a file. -/
def harms (files : Table Bytes Bytes) (path : Bytes) : EStateM.Result Stop Host Unit → Bool
  | .error (.error _) h =>
      !h.saved && (Finmap.lookup path files).isSome &&
        Finmap.lookup path h.files != Finmap.lookup path files
  | _ => false

theorem not_spares_of_harms {files : Table Bytes Bytes} {path : Bytes}
    {result : EStateM.Result Stop Host Unit} (hharms : harms files path result = true) :
    ¬ Spares files result := by
  intro hspares
  unfold harms at hharms
  split at hharms
  · rename_i error h
    simp only [Bool.and_eq_true, Bool.not_eq_true', bne_iff_ne, ne_eq] at hharms
    obtain ⟨⟨hunsaved, hsome⟩, hne⟩ := hharms
    obtain ⟨content, hcontent⟩ := Option.isSome_iff_exists.mp hsome
    exact hne ((hspares error h rfl hunsaved path content hcontent).trans hcontent.symm)
  · exact absurd hharms (by decide)

/-- The configuration is valid and its secret is replaced, although the edited
configuration is refused. -/
theorem refused_edit_replaces_secret :
    (load sampleSystem (configPath sampleSystem (ofString "a")) sampleFiles).isOk = true ∧
      ¬ AllOrNothing (edit sampleSystem (ofString "a")) sampleInput sampleFiles := by
  refine ⟨by decide +kernel, ?_⟩
  have hharms : harms sampleFiles (ofString "/key")
      (edit sampleSystem (ofString "a") ⟨sampleInput, sampleFiles, false⟩) = true := by
    decide +kernel
  exact not_spares_of_harms hharms

end UnknownTunnel.Admin
