import UnknownTunnel.ConfigFile.Validate
import UnknownTunnel.Foundation.Program
import UnknownTunnel.Foundation.Table

/-!
# The dialogue with the operator

Every question of the administration commands is asked again until a check
accepts the answer, where an empty answer stands for a default. Standard input
is a list of lines. After its end every read gives an empty line, so that a
question whose default is refused is then asked forever.

## Implementation notes

The questions differ in their default and their check only, and are one
definition applied to these. Texts shown to the operator are left out. A
program of the dialogue ends with a value, with an error, or never.
-/

namespace UnknownTunnel.Admin

open Foundation ConfigFile

/-- The calls that replace a file, in the order in which they are made. -/
inductive FileOp
  | mkdirAll
  | createTemp
  | chmodTemp
  | write
  | sync
  | close
  | rename
  | chmod
  deriving DecidableEq

/-- Why a configuration is not loaded. -/
inductive LoadError
  | read
  | parse
  | invalid (errors : List ValidationError)
  deriving DecidableEq

/-- Why a secret file is not accepted. -/
inductive SecretError
  | read
  | short
  | large
  deriving DecidableEq

/-- The errors that the commands return. -/
inductive AdminError
  | read
  | root
  | configDir
  | instanceName
  | exists (instanceName : Bytes)
  | stat
  | load (error : LoadError)
  | invalidRoute (route : Bytes)
  | duplicateService (name : Bytes)
  | duplicateForward (name : Bytes)
  | unusableSecret (error : SecretError)
  | secret (error : SecretError)
  | random
  | cancelled
  | unsupportedSecretAction
  | generatedInvalid (errors : List ValidationError)
  | invalid (errors : List ValidationError)
  | secretExists
  | file (op : FileOp)
  | systemctl
  | noConfiguration
  | unsupportedAction
  | journalctl
  | remove
  | noInstances
  | invalidConfigurations (instances : List Bytes)
  deriving DecidableEq

/-- How a program ends without a value. -/
inductive Stop
  | error (error : AdminError)
  | loops
  deriving DecidableEq

/-- Standard input, where `none` is a failing read; the files by their absolute
paths; and whether the configuration has been replaced. -/
structure Host where
  input : List (Option Bytes)
  files : Table Bytes Bytes
  saved : Bool

/-- What the questions leave alone. -/
def Host.disk (h : Host) : Table Bytes Bytes × Bool := (h.files, h.saved)

/-- Nothing is done but taking lines from the input. -/
def Reads (h h' : Host) : Prop := h'.disk = h.disk ∧ h'.input <:+ h.input

instance : IsPreorder Host Reads where
  refl _ := ⟨rfl, List.suffix_rfl⟩
  trans _ _ _ h h' := ⟨h'.1.trans h.1, h'.2.trans h.2⟩

/-- A program that asks the operator and works on the files. -/
abbrev Dialogue (α : Type) := EStateM Stop Host α

def stop {α : Type} (error : AdminError) : Dialogue α := throw (.error error)

/-! ## Questions -/

/-- What becomes of a question: an answer and the lines after it, a read that
fails, or the same question again and again at the end of the input. -/
inductive Asked (α : Type)
  | answer (value : α) (rest : List (Option Bytes))
  | failed (rest : List (Option Bytes))
  | loops

/-- A default for a value that is empty. -/
def valueOr (value fallback : Bytes) : Bytes := if value = [] then fallback else value

/-- A question is asked until a check accepts the answer. -/
def askLines {α : Type} (default : Bytes) (check : Bytes → Option α) :
    List (Option Bytes) → Asked α
  | [] =>
      match check default with
      | some value => .answer value []
      | none => .loops
  | none :: rest => .failed rest
  | some line :: rest =>
      match check (valueOr (Text.trimSpace line) default) with
      | some value => .answer value rest
      | none => askLines default check rest

/-- A question to the operator. -/
def ask {α : Type} (default : Bytes) (check : Bytes → Option α) : Dialogue α := fun h =>
  match askLines default check h.input with
  | .answer value rest => .ok value { h with input := rest }
  | .failed rest => .error (.error .read) { h with input := rest }
  | .loops => .error .loops { h with input := [] }

/-- An answer is taken as it is if it passes a test. -/
def accept (test : Bytes → Bool) (value : Bytes) : Option Bytes :=
  if test value then some value else none

/-- Any answer is taken. -/
def prompt (default : Bytes) : Dialogue Bytes := ask default some

/-- An answer is required. -/
def promptRequired (default : Bytes) : Dialogue Bytes :=
  ask default (accept fun value => value ≠ [])

/-- A name of an instance, a service or a forward is required. -/
def promptIdentifier (default : Bytes) : Dialogue Bytes :=
  ask default (accept fun value => value ≠ [] && identifierRE value)

/-- A name of an interface is required. -/
def promptInterface (default : Bytes) : Dialogue Bytes :=
  ask default (accept fun value => value ≠ [] && interfaceRE value)

/-- An address with the length of its network is required. -/
def promptCIDR (L : Library) (default : Bytes) : Dialogue Bytes :=
  ask default (accept fun value => value ≠ [] && L.parseCIDR value)

/-- A decimal number within bounds. -/
def inRange (low high : Int) (value : Bytes) : Option Int :=
  (Text.atoi value).filter fun n => low ≤ n ∧ n ≤ high

/-- A port is required, and is kept as it is written. -/
def promptPort (default : Bytes) : Dialogue Bytes :=
  ask default (accept fun value => value ≠ [] && (inRange 1 65535 value).isSome)

/-- A number within bounds is required. -/
def promptInt (default low high : Int) : Dialogue Int :=
  ask (Text.itoa default) (inRange low high)

/-- A question with two answers, in any case of letters. -/
def yesNo (L : Library) (default : Bool) : Dialogue Bool :=
  ask [] fun line =>
    let value := L.toLower line
    if value = [] then some default
    else if value = ofString "y" ∨ value = ofString "yes" then some true
    else if value = ofString "n" ∨ value = ofString "no" then some false
    else none

/-- One of the options, in any case of letters. -/
def choice (L : Library) (options : List Bytes) (default : Bytes) : Dialogue Bytes :=
  ask default fun line =>
    let value := L.toLower line
    if value ∈ options then some value else none

/-- The hidden line of `readSecret`. -/
def readSecretLine : Dialogue Bytes := ask [] some

/-- A question that is asked under a condition only. -/
def askIf {α : Type} (p : Prop) [Decidable p] (question : Dialogue α) (otherwise : α) :
    Dialogue α :=
  if p then question else pure otherwise

/-! ## What asking does -/

section Ask

variable {α : Type} {default : Bytes} {check : Bytes → Option α}

/-- Neither the default nor any line that is left answers a question. -/
structure Unanswered (default : Bytes) (check : Bytes → Option α)
    (input : List (Option Bytes)) : Prop where
  refused : check default = none
  lines : ∀ line ∈ input,
    ∃ text, line = some text ∧ check (valueOr (Text.trimSpace text) default) = none

theorem unanswered_cons {line : Option Bytes} {rest : List (Option Bytes)} :
    Unanswered default check (line :: rest) ↔
      (∃ text, line = some text ∧ check (valueOr (Text.trimSpace text) default) = none) ∧
        Unanswered default check rest := by
  constructor
  · rintro ⟨hdefault, hlines⟩
    rw [List.forall_mem_cons] at hlines
    exact ⟨hlines.1, hdefault, hlines.2⟩
  · rintro ⟨hline, hdefault, hlines⟩
    exact ⟨hdefault, List.forall_mem_cons.mpr ⟨hline, hlines⟩⟩

/-- A question is asked forever if nothing answers it. -/
theorem askLines_eq_loops_iff {input : List (Option Bytes)} :
    askLines default check input = .loops ↔ Unanswered default check input := by
  induction input with
  | nil =>
      rw [askLines]
      cases hcheck : check default with
      | some value => exact iff_of_false (fun h => by cases h) fun h => by cases hcheck ▸ h.refused
      | none => exact iff_of_true rfl ⟨hcheck, fun _ h => absurd h List.not_mem_nil⟩
  | cons line rest ih =>
      rw [unanswered_cons, ← ih]
      cases line with
      | none => exact iff_of_false (fun h => by cases h) fun ⟨⟨_, h, _⟩, _⟩ => by cases h
      | some text =>
          rw [askLines]
          cases hcheck : check (valueOr (Text.trimSpace text) default) with
          | some value => simp [hcheck]
          | none => simp [hcheck]

/-- An answer passed the check, and it came from the front of the input. -/
theorem askLines_eq_answer {input rest : List (Option Bytes)} {value : α}
    (h : askLines default check input = .answer value rest) :
    rest <:+ input ∧ ∃ line, check line = some value := by
  induction input with
  | nil =>
      rw [askLines] at h
      split at h
      · rename_i hcheck
        cases h
        exact ⟨List.suffix_rfl, default, hcheck⟩
      · cases h
  | cons line tail ih =>
      cases line with
      | none => cases h
      | some text =>
          rw [askLines] at h
          split at h
          · rename_i hcheck
            cases h
            exact ⟨List.suffix_cons _ _, _, hcheck⟩
          · obtain ⟨hsuffix, hline⟩ := ih h
            exact ⟨hsuffix.trans (List.suffix_cons _ _), hline⟩

theorem askLines_eq_failed {input rest : List (Option Bytes)}
    (h : askLines default check input = .failed rest) : rest <:+ input := by
  induction input with
  | nil =>
      rw [askLines] at h
      split at h <;> cases h
  | cons line tail ih =>
      cases line with
      | none =>
          cases h
          exact List.suffix_cons _ _
      | some text =>
          rw [askLines] at h
          split at h
          · cases h
          · exact (ih h).trans (List.suffix_cons _ _)

/-- Asking takes lines from the input and does nothing else. -/
theorem reads_ask (default : Bytes) (check : Bytes → Option α) :
    Moves Reads (ask default check) := by
  intro h
  unfold ask
  split
  · rename_i hlines
    exact ⟨rfl, (askLines_eq_answer hlines).1⟩
  · rename_i hlines
    exact ⟨rfl, askLines_eq_failed hlines⟩
  · exact ⟨rfl, List.nil_suffix⟩

theorem exits_ask_iff {h : Host} :
    Exits .loops (ask default check) h ↔ Unanswered default check h.input := by
  rw [← askLines_eq_loops_iff]
  unfold Exits ask
  cases askLines default check h.input with
  | answer value rest => exact iff_of_false (fun ⟨_, h⟩ => by cases h) fun h => by cases h
  | failed rest => exact iff_of_false (fun ⟨_, h⟩ => by cases h) fun h => by cases h
  | loops => exact iff_of_true ⟨_, rfl⟩ rfl

/-- A question whose default is accepted is not asked forever. -/
theorem never_ask {value : α} (h : check default = some value) :
    Never .loops (ask default check) := by
  intro host hloops
  have hrefused := (exits_ask_iff.mp hloops).refused
  rw [h] at hrefused
  cases hrefused

/-- What is answered passed the check. -/
theorem gives_ask {P : α → Prop} (h : ∀ line value, check line = some value → P value) :
    Gives P (ask default check) := by
  intro host value host' hok
  unfold ask at hok
  split at hok
  · rename_i hlines
    cases hok
    obtain ⟨-, line, hline⟩ := askLines_eq_answer hlines
    exact h line value hline
  · cases hok
  · cases hok

end Ask

theorem reads_stop {α : Type} (error : AdminError) :
    Moves Reads (stop error : Dialogue α) := Moves.throw _

theorem never_stop {α : Type} (error : AdminError) : Never .loops (stop error : Dialogue α) :=
  Never.throw Stop.noConfusion

theorem keeps_of_reads {α : Type} {m : Dialogue α} (h : Moves Reads m) : Keeps Host.disk m :=
  fun s => (h s).1

theorem reads_askIf {α : Type} {p : Prop} [Decidable p] {question : Dialogue α} {otherwise : α}
    (h : Moves Reads question) : Moves Reads (askIf p question otherwise) :=
  Moves.ite (fun _ => h) fun _ => Moves.pure _

theorem never_askIf {α : Type} {p : Prop} [Decidable p] {question : Dialogue α} {otherwise : α}
    (h : p → Never .loops question) : Never .loops (askIf p question otherwise) :=
  Never.ite h fun _ => Never.pure _

end UnknownTunnel.Admin
