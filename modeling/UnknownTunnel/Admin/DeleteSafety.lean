import UnknownTunnel.Admin.Panel
import UnknownTunnel.Admin.SavedConfig

/-!
# Secrets of other tunnels

`Delete` offers to remove the secret of a tunnel unless another configuration
names it. Configurations that cannot be loaded are passed over in this search,
although they may name the secret as well.

## Implementation notes

What a file names as its secret is known also for files that are refused: a
reader gives it, and agrees with the decoder where that succeeds. A secret is
removed if its file was there before and is not there afterwards.
-/

namespace UnknownTunnel.Admin.Panel

open Foundation ConfigFile

/-- What files name as their secret. -/
structure Reader (sys : System) where
  named : Bytes → Option Bytes
  decoded : ∀ data cfg, sys.decode data = some cfg → named data = some cfg.auth.secretFile

/-- The file of an instance names a secret. The cleaned names are compared, as
`secretReferencedElsewhere` does, and not the files that they lead to: a relative
and an absolute name of one file differ. -/
def Uses {sys : System} (r : Reader sys) (files : Table Bytes Bytes) (secret name : Bytes) :
    Prop :=
  identifierRE name = true ∧
    ∃ data, Finmap.lookup (locate sys (configPath sys name)) files = some data ∧
      ∃ path, r.named data = some path ∧ Text.clean path = Text.clean secret

/-- Two instances have different files. -/
def Apart (sys : System) (name other : Bytes) : Prop :=
  locate sys (configPath sys name) ≠ locate sys (configPath sys other)

instance (sys : System) (name other : Bytes) : Decidable (Apart sys name other) :=
  inferInstanceAs (Decidable (locate sys (configPath sys name) ≠ locate sys (configPath sys other)))

/-- What is promised for the files before and after a deletion. -/
structure DeletesSafely {sys : System} (r : Reader sys) (instanceName : Bytes)
    (files files' : Table Bytes Bytes) : Prop where
  /-- No other instance uses a secret that is removed. -/
  secret : ∀ cfg, load sys (configPath sys instanceName) files = .ok cfg →
    locate sys cfg.auth.secretFile ∈ files → locate sys cfg.auth.secretFile ∉ files' →
      ∀ name, Apart sys name instanceName → ¬ Uses r files cfg.auth.secretFile name
  /-- Nothing else is changed. -/
  rest : ∀ path, Finmap.lookup path files' ≠ Finmap.lookup path files →
    path ∉ files' ∧ ∃ cfg, load sys (configPath sys instanceName) files = .ok cfg ∧
      (path = locate sys (configPath sys instanceName) ∨ path = locate sys cfg.auth.secretFile)

variable (env : Environment)

/-- `Delete` comes to removing the configuration, and removes it. -/
structure Deletes (instanceName : Bytes) (force : Bool) (h : Host) (cfg : Config) (h' : Host) :
    Prop where
  root : env.root = true
  loads : load env.toSystem (configPath env.toSystem instanceName) h.files = .ok cfg
  confirmed : (askIf (force = false) (yesNo env.lib false) true : Dialogue Bool) h = .ok true h'
  removes : env.removes (locate env.toSystem (configPath env.toSystem instanceName)) = true

/-- The configuration is removed, and the secret is removed with it or as it is
used only by configurations that cannot be loaded. -/
structure Exposes (r : Reader env.toSystem) (instanceName : Bytes) (force : Bool) (h : Host)
    (cfg : Config) (h' : Host) : Prop where
  deletes : Deletes env instanceName force h cfg h'
  present : locate env.toSystem cfg.auth.secretFile ∈ h.files
  used : ∃ name, Apart env.toSystem name instanceName ∧ Uses r h.files cfg.auth.secretFile name
  removed : locate env.toSystem cfg.auth.secretFile =
      locate env.toSystem (configPath env.toSystem instanceName) ∨
    (force = false ∧ env.removes (locate env.toSystem cfg.auth.secretFile) = true ∧
      (∃ h'', yesNo env.lib false h' = .ok true h'') ∧
      ∀ name, Apart env.toSystem name instanceName → Uses r h.files cfg.auth.secretFile name →
        ∀ other, load env.toSystem (configPath env.toSystem name) h.files ≠ .ok other)

/-! ## Loading -/

section Loading

variable {sys : System} {files : Table Bytes Bytes} {path : Bytes}

theorem load_erase {other : Bytes} (h : locate sys path ≠ other) :
    load sys path (files.erase other) = load sys path files := by
  have hread : readFile sys path (files.erase other) = readFile sys path files := by
    rw [readFile, readFile, Table.lookup_erase_eq, if_neg h]
  rw [load, load, hread]

/-- A secret is found to be used elsewhere exactly if a configuration that can
be loaded uses it. -/
theorem secretReferencedElsewhere_iff (r : Reader sys) (secret instanceName : Bytes) :
    secretReferencedElsewhere sys secret instanceName
        (files.erase (locate sys (configPath sys instanceName))) ↔
      ∃ name, Apart sys name instanceName ∧ Uses r files secret name ∧
        ∃ cfg, load sys (configPath sys name) files = .ok cfg := by
  simp only [secretReferencedElsewhere, others, List.mem_filter, decide_eq_true_iff,
    mem_instances_iff, Finmap.mem_erase]
  constructor
  · rintro ⟨name, ⟨⟨hname, happart, hfile⟩, -⟩, cfg, hcfg, hclean⟩
    rw [load_erase happart] at hcfg
    have hload : load sys (configPath sys name) files = .ok cfg := by
      cases hresult : load sys (configPath sys name) files with
      | error e =>
          rw [hresult] at hcfg
          cases hcfg
      | ok found =>
          rw [hresult] at hcfg
          cases hcfg
          rfl
    obtain ⟨data, raw, hdata, hraw, -, rfl⟩ := load_eq_ok_iff.mp hload
    exact ⟨name, happart, ⟨hname, data, lookup_of_readFile hdata, _, r.decoded data raw hraw,
      hclean⟩, _, hload⟩
  · rintro ⟨name, happart, ⟨hname, data, hdata, path, hpath, hclean⟩, cfg, hload⟩
    obtain ⟨data', raw, hdata', hraw, -, rfl⟩ := load_eq_ok_iff.mp hload
    obtain rfl : data = data' := Option.some.inj (hdata.symm.trans (lookup_of_readFile hdata'))
    obtain rfl : raw.auth.secretFile = path :=
      Option.some.inj ((r.decoded data raw hraw).symm.trans hpath)
    have hfile : locate sys (configPath sys name) ∈ files :=
      Finmap.mem_of_lookup_eq_some hdata
    refine ⟨name, ⟨⟨hname, happart, hfile⟩, ?_⟩, raw.normalize sys.lib, ?_, hclean⟩
    · rintro rfl
      exact happart rfl
    · rw [load_erase happart, hload]
      rfl

end Loading

/-! ## What is removed -/

variable {env}

/-- The secret is removed after the configuration. -/
structure RemovesSecret (env : Environment) (instanceName : Bytes) (force : Bool) (cfg : Config)
    (h : Host) : Prop where
  unused : ¬ secretReferencedElsewhere env.toSystem cfg.auth.secretFile instanceName h.files
  asks : force = false
  confirmed : ∃ h', yesNo env.lib false h = .ok true h'
  present : locate env.toSystem cfg.auth.secretFile ∈ h.files
  removes : env.removes (locate env.toSystem cfg.auth.secretFile) = true

theorem removeFile_of_removes {path : Bytes} {h : Host} (hfile : locate env.toSystem path ∈ h.files)
    (hremoves : env.removes (locate env.toSystem path) = true) :
    removeFile env path h = .ok .removed (without (locate env.toSystem path) h) := by
  have hsome : (Finmap.lookup (locate env.toSystem path) h.files).isNone = false := by
    rw [Option.isNone_eq_false_iff, Finmap.lookup_isSome]
    exact hfile
  rw [removeFile, hsome, if_neg Bool.false_ne_true, if_pos hremoves]

theorem removeFile_of_fails {path : Bytes} {h : Host} (hfile : locate env.toSystem path ∈ h.files)
    (hremoves : env.removes (locate env.toSystem path) = false) :
    removeFile env path h = .ok .failed h := by
  have hsome : (Finmap.lookup (locate env.toSystem path) h.files).isNone = false := by
    rw [Option.isNone_eq_false_iff, Finmap.lookup_isSome]
    exact hfile
  rw [removeFile, hsome, if_neg Bool.false_ne_true, hremoves, if_neg Bool.false_ne_true]

theorem removeFile_of_missing {path : Bytes} {h : Host}
    (hfile : locate env.toSystem path ∉ h.files) : removeFile env path h = .ok .missing h := by
  have hnone : (Finmap.lookup (locate env.toSystem path) h.files).isNone = true := by
    rw [Option.isNone_iff_eq_none, Finmap.lookup_eq_none]
    exact hfile
  rw [removeFile, if_pos hnone]

/-- Questions leave the files alone. -/
theorem files_of_ok {α : Type} {m : Dialogue α} (hm : Moves Reads m) {h h' : Host} {a : α}
    (hok : m h = .ok a h') : h'.files = h.files :=
  congrArg Prod.fst ((keeps_of_reads hm).ok hok)

theorem files_of_error {α : Type} {m : Dialogue α} (hm : Moves Reads m) {h h' : Host}
    {e : Stop} (herror : m h = .error e h') : h'.files = h.files :=
  congrArg Prod.fst ((keeps_of_reads hm).error herror)

theorem Deletes.files {instanceName : Bytes} {force : Bool} {h h' : Host} {cfg : Config}
    (hd : Deletes env instanceName force h cfg h') : h'.files = h.files :=
  files_of_ok (reads_askIf (reads_ask _ _)) hd.confirmed

/-- The removal of the secret is asked for once it is known to be unused. -/
theorem offerSecret_apply (instanceName : Bytes) (force : Bool) (cfg : Config)
    (s : Recorded Host Action) :
    ∃ trace, offerSecret env instanceName force cfg s =
      (perform (askIf (¬ secretReferencedElsewhere env.toSystem cfg.auth.secretFile instanceName
          s.state.files ∧ force = false) (yesNo env.lib false) false) >>=
        fun removeSecret => if removeSecret = true then do
            let _ ← perform (removeFile env cfg.auth.secretFile)
            pure ()
          else pure ()) ⟨s.state, trace⟩ :=
  ⟨_, rfl⟩

theorem offerSecret_of_removes {instanceName : Bytes} {force : Bool} {cfg : Config}
    {s : Recorded Host Action} (h : RemovesSecret env instanceName force cfg s.state) :
    (finalState (offerSecret env instanceName force cfg s)).state.files =
      s.state.files.erase (locate env.toSystem cfg.auth.secretFile) := by
  obtain ⟨h', hyes⟩ := h.confirmed
  have hfiles : h'.files = s.state.files := files_of_ok (reads_ask _ _) hyes
  have hremove := removeFile_of_removes (by rw [hfiles]; exact h.present) h.removes
  obtain ⟨trace, happly⟩ := @offerSecret_apply env instanceName force cfg s
  rw [happly, askIf, if_pos ⟨h.unused, h.asks⟩, bind_of_ok (perform_of_ok hyes _), if_pos rfl,
    bind_of_ok (perform_of_ok hremove _), ← hfiles]
  rfl

theorem offerSecret_of_keeps {instanceName : Bytes} {force : Bool} {cfg : Config}
    {s : Recorded Host Action} (h : ¬ RemovesSecret env instanceName force cfg s.state) :
    (finalState (offerSecret env instanceName force cfg s)).state.files = s.state.files := by
  obtain ⟨trace, happly⟩ := @offerSecret_apply env instanceName force cfg s
  rw [happly]
  generalize hask : (askIf (¬ secretReferencedElsewhere env.toSystem cfg.auth.secretFile
    instanceName s.state.files ∧ force = false) (yesNo env.lib false) false : Dialogue Bool) = ask
  have hreads : Moves Reads ask := hask ▸ reads_askIf (reads_ask _ _)
  cases hresult : ask s.state with
  | error e t =>
      rw [bind_of_error (perform_of_error hresult _)]
      exact files_of_error hreads hresult
  | ok removeSecret t =>
      rw [bind_of_ok (perform_of_ok hresult _)]
      have hfiles : t.files = s.state.files := files_of_ok hreads hresult
      cases removeSecret with
      | false => exact hfiles
      | true =>
          -- the question was asked and answered, so only the file can be in the way
          have hasked : ¬ secretReferencedElsewhere env.toSystem cfg.auth.secretFile instanceName
              s.state.files ∧ force = false := by
            by_contra hnot
            rw [← hask, askIf, if_neg hnot] at hresult
            cases hresult
          have hyes : yesNo env.lib false s.state = .ok true t := by
            rw [← hask, askIf, if_pos hasked] at hresult
            exact hresult
          rw [if_pos rfl]
          by_cases hpresent : locate env.toSystem cfg.auth.secretFile ∈ t.files
          · cases hremoves : env.removes (locate env.toSystem cfg.auth.secretFile) with
            | true =>
                exact absurd ⟨hasked.1, hasked.2, ⟨t, hyes⟩, hfiles ▸ hpresent, hremoves⟩ h
            | false =>
                rw [bind_of_ok (perform_of_ok (removeFile_of_fails hpresent hremoves) _)]
                exact hfiles
          · rw [bind_of_ok (perform_of_ok (removeFile_of_missing hpresent) _)]
            exact hfiles

theorem loadConfig_of_ok {path : Bytes} {h : Host} {cfg : Config}
    (hload : load env.toSystem path h.files = .ok cfg) (trace : List Action) :
    ∃ trace', loadConfig env path ⟨h, trace⟩ = .ok cfg ⟨h, trace'⟩ := by
  unfold loadConfig
  rw [perform_get_bind, hload]
  unfold recordIf
  split <;> exact ⟨_, rfl⟩

theorem loadConfig_of_error {path : Bytes} {h : Host} {error : LoadError}
    (hload : load env.toSystem path h.files = .error error) (trace : List Action) :
    ∃ trace', loadConfig env path ⟨h, trace⟩ = .error (.error (.load error)) ⟨h, trace'⟩ := by
  unfold loadConfig
  rw [perform_get_bind, hload]
  unfold recordIf
  split <;> exact ⟨_, rfl⟩

theorem mem_of_load {path : Bytes} {files : Table Bytes Bytes} {cfg : Config}
    (h : load env.toSystem path files = .ok cfg) : locate env.toSystem path ∈ files := by
  obtain ⟨data, raw, hdata, -⟩ := load_eq_ok_iff.mp h
  exact Finmap.mem_of_lookup_eq_some (lookup_of_readFile hdata)

/-- A deletion that gets there offers to remove the secret of a host without
the configuration. -/
theorem delete_of_deletes {instanceName : Bytes} {force : Bool} {h h' : Host} {cfg : Config}
    (hd : Deletes env instanceName force h cfg h') (trace : List Action) :
    ∃ trace', delete env instanceName force ⟨h, trace⟩ = offerSecret env instanceName force cfg
      ⟨without (locate env.toSystem (configPath env.toSystem instanceName)) h', trace'⟩ := by
  have hfiles := hd.files
  have hfile : locate env.toSystem (configPath env.toSystem instanceName) ∈ h'.files :=
    hfiles ▸ mem_of_load hd.loads
  obtain ⟨trace', hload⟩ := loadConfig_of_ok hd.loads trace
  have hremove := removeFile_of_removes hfile hd.removes
  rw [delete, bind_of_ok (perform_of_ok (requireRoot_of_root hd.root h) _), bind_of_ok hload,
    bind_of_ok (perform_of_ok hd.confirmed _), if_neg (by decide), deleteConfirmed, record_bind,
    removeConfig, bind_assoc, record_bind, bind_assoc, bind_of_ok (perform_of_ok hremove _),
    if_neg (by decide)]
  exact ⟨_, rfl⟩

theorem delete_of_not_deletes {instanceName : Bytes} {force : Bool} {h : Host}
    (hnot : ∀ cfg h', ¬ Deletes env instanceName force h cfg h') (trace : List Action) :
    (finalState (delete env instanceName force ⟨h, trace⟩)).state.files = h.files := by
  unfold delete
  cases hroot : env.root with
  | false =>
      rw [bind_of_error (perform_of_error (requireRoot_of_not_root hroot h) _)]
      rfl
  | true =>
  rw [bind_of_ok (perform_of_ok (requireRoot_of_root hroot h) _)]
  cases hload : load env.toSystem (configPath env.toSystem instanceName) h.files with
  | error error =>
      obtain ⟨trace', herror⟩ := loadConfig_of_error hload trace
      rw [bind_of_error herror]
      rfl
  | ok cfg =>
  obtain ⟨trace', hok⟩ := loadConfig_of_ok hload trace
  rw [bind_of_ok hok]
  have hreads : Moves Reads (askIf (force = false) (yesNo env.lib false) true : Dialogue Bool) :=
    reads_askIf (reads_ask _ _)
  cases hask : (askIf (force = false) (yesNo env.lib false) true : Dialogue Bool) h with
  | error e h' =>
      rw [bind_of_error (perform_of_error hask _)]
      exact files_of_error hreads hask
  | ok confirmed h' =>
  have hfiles : h'.files = h.files := files_of_ok hreads hask
  rw [bind_of_ok (perform_of_ok hask _)]
  cases confirmed with
  | false => exact hfiles
  | true =>
  cases hremoves : env.removes (locate env.toSystem (configPath env.toSystem instanceName)) with
  | true => exact absurd ⟨hroot, hload, hask, hremoves⟩ (hnot cfg h')
  | false =>
      have hfails := removeFile_of_fails (hfiles ▸ mem_of_load hload) hremoves
      rw [if_neg (by decide), deleteConfirmed, record_bind, removeConfig, bind_assoc, record_bind,
        bind_assoc, bind_of_ok (perform_of_ok hfails _), if_pos rfl]
      exact hfiles

/-! ## The promise -/

/-- An answer depends on the input only. -/
theorem yesNo_without {default answer : Bool} {path : Bytes} {h : Host} :
    (∃ t, yesNo env.lib default (without path h) = .ok answer t) ↔
      ∃ t, yesNo env.lib default h = .ok answer t := by
  unfold yesNo ask
  rw [show (without path h).input = h.input from rfl]
  split
  · constructor
    · rintro ⟨t, ht⟩
      cases ht
      exact ⟨_, rfl⟩
    · rintro ⟨t, ht⟩
      cases ht
      exact ⟨_, rfl⟩
  · exact iff_of_false (fun ⟨_, ht⟩ => by cases ht) fun ⟨_, ht⟩ => by cases ht
  · exact iff_of_false (fun ⟨_, ht⟩ => by cases ht) fun ⟨_, ht⟩ => by cases ht

/-- When the secret is removed after the configuration, in terms of the files
before the deletion. -/
theorem removesSecret_iff (r : Reader env.toSystem) {instanceName : Bytes} {force : Bool}
    {h h' : Host} {cfg : Config} (hd : Deletes env instanceName force h cfg h') :
    RemovesSecret env instanceName force cfg
        (without (locate env.toSystem (configPath env.toSystem instanceName)) h') ↔
      locate env.toSystem cfg.auth.secretFile ≠
          locate env.toSystem (configPath env.toSystem instanceName) ∧
        locate env.toSystem cfg.auth.secretFile ∈ h.files ∧ force = false ∧
        env.removes (locate env.toSystem cfg.auth.secretFile) = true ∧
        (∃ h'', yesNo env.lib false h' = .ok true h'') ∧
        ∀ name, Apart env.toSystem name instanceName → Uses r h.files cfg.auth.secretFile name →
          ∀ other, load env.toSystem (configPath env.toSystem name) h.files ≠ .ok other := by
  have hfiles := hd.files
  have hpresent : locate env.toSystem cfg.auth.secretFile ∈
      (without (locate env.toSystem (configPath env.toSystem instanceName)) h').files ↔
        locate env.toSystem cfg.auth.secretFile ≠
            locate env.toSystem (configPath env.toSystem instanceName) ∧
          locate env.toSystem cfg.auth.secretFile ∈ h.files := by
    rw [without, hfiles, Finmap.mem_erase]
  have hunused : (¬ secretReferencedElsewhere env.toSystem cfg.auth.secretFile instanceName
      (without (locate env.toSystem (configPath env.toSystem instanceName)) h').files) ↔
        ∀ name, Apart env.toSystem name instanceName → Uses r h.files cfg.auth.secretFile name →
          ∀ other, load env.toSystem (configPath env.toSystem name) h.files ≠ .ok other := by
    rw [without, hfiles, secretReferencedElsewhere_iff r]
    simp only [not_exists, not_and]
  constructor
  · intro hremoves
    obtain ⟨hne, hmem⟩ := hpresent.mp hremoves.present
    exact ⟨hne, hmem, hremoves.asks, hremoves.removes, yesNo_without.mp hremoves.confirmed,
      hunused.mp hremoves.unused⟩
  · rintro ⟨hne, hmem, hasks, hremoves, hconfirmed, hnone⟩
    exact ⟨hunused.mpr hnone, hasks, yesNo_without.mpr hconfirmed, hpresent.mpr ⟨hne, hmem⟩,
      hremoves⟩

section Files

variable {instanceName : Bytes} {force : Bool} {h h' : Host} {cfg : Config}

/-- The files after a deletion that removes the secret. -/
theorem files_of_removesSecret (hd : Deletes env instanceName force h cfg h')
    (hs : RemovesSecret env instanceName force cfg
      (without (locate env.toSystem (configPath env.toSystem instanceName)) h'))
    (trace : List Action) :
    (finalState (delete env instanceName force ⟨h, trace⟩)).state.files =
      (h.files.erase (locate env.toSystem (configPath env.toSystem instanceName))).erase
        (locate env.toSystem cfg.auth.secretFile) := by
  have hfiles := hd.files
  obtain ⟨trace', hdelete⟩ := delete_of_deletes hd trace
  rw [hdelete, offerSecret_of_removes hs, without, hfiles]

theorem files_of_not_removesSecret (hd : Deletes env instanceName force h cfg h')
    (hs : ¬ RemovesSecret env instanceName force cfg
      (without (locate env.toSystem (configPath env.toSystem instanceName)) h'))
    (trace : List Action) :
    (finalState (delete env instanceName force ⟨h, trace⟩)).state.files =
      h.files.erase (locate env.toSystem (configPath env.toSystem instanceName)) := by
  have hfiles := hd.files
  obtain ⟨trace', hdelete⟩ := delete_of_deletes hd trace
  rw [hdelete, offerSecret_of_keeps hs, without, hfiles]

end Files

/-- A deletion changes the configuration and the secret only. -/
theorem delete_rest (instanceName : Bytes) (force : Bool) (h : Host) (trace : List Action)
    (path : Bytes)
    (hpath : Finmap.lookup path
        (finalState (delete env instanceName force ⟨h, trace⟩)).state.files ≠
      Finmap.lookup path h.files) :
    path ∉ (finalState (delete env instanceName force ⟨h, trace⟩)).state.files ∧
      ∃ cfg, load env.toSystem (configPath env.toSystem instanceName) h.files = .ok cfg ∧
        (path = locate env.toSystem (configPath env.toSystem instanceName) ∨
          path = locate env.toSystem cfg.auth.secretFile) := by
  by_cases hdeletes : ∃ cfg h', Deletes env instanceName force h cfg h'
  · obtain ⟨cfg, h', hd⟩ := hdeletes
    by_cases hs : RemovesSecret env instanceName force cfg
        (without (locate env.toSystem (configPath env.toSystem instanceName)) h')
    · rw [files_of_removesSecret hd hs] at hpath ⊢
      rw [Table.lookup_erase_eq, Table.lookup_erase_eq] at hpath
      rw [Finmap.mem_erase, Finmap.mem_erase]
      split at hpath
      · rename_i hsecret
        exact ⟨fun hmem => hmem.1 hsecret, cfg, hd.loads, Or.inr hsecret⟩
      · split at hpath
        · rename_i hconfig
          exact ⟨fun hmem => hmem.2.1 hconfig, cfg, hd.loads, Or.inl hconfig⟩
        · exact absurd rfl hpath
    · rw [files_of_not_removesSecret hd hs] at hpath ⊢
      rw [Table.lookup_erase_eq] at hpath
      rw [Finmap.mem_erase]
      split at hpath
      · rename_i hconfig
        exact ⟨fun hmem => hmem.1 hconfig, cfg, hd.loads, Or.inl hconfig⟩
      · exact absurd rfl hpath
  · simp only [not_exists] at hdeletes
    rw [delete_of_not_deletes hdeletes] at hpath
    exact absurd rfl hpath

/-- A secret that is there is removed exactly with its configuration or after it. -/
theorem secret_removed_iff {instanceName : Bytes} {force : Bool} {h : Host} {cfg : Config}
    (hload : load env.toSystem (configPath env.toSystem instanceName) h.files = .ok cfg)
    (hpresent : locate env.toSystem cfg.auth.secretFile ∈ h.files) (trace : List Action) :
    locate env.toSystem cfg.auth.secretFile ∉
        (finalState (delete env instanceName force ⟨h, trace⟩)).state.files ↔
      ∃ h', Deletes env instanceName force h cfg h' ∧
        (locate env.toSystem cfg.auth.secretFile =
            locate env.toSystem (configPath env.toSystem instanceName) ∨
          RemovesSecret env instanceName force cfg
            (without (locate env.toSystem (configPath env.toSystem instanceName)) h')) := by
  constructor
  · intro hgone
    by_cases hdeletes : ∃ cfg h', Deletes env instanceName force h cfg h'
    · obtain ⟨cfg', h', hd⟩ := hdeletes
      obtain rfl : cfg' = cfg := Except.ok.inj (hd.loads.symm.trans hload)
      refine ⟨h', hd, ?_⟩
      by_contra hnot
      obtain ⟨hne, hs⟩ := not_or.mp hnot
      rw [files_of_not_removesSecret hd hs, Finmap.mem_erase] at hgone
      exact hgone ⟨hne, hpresent⟩
    · simp only [not_exists] at hdeletes
      rw [delete_of_not_deletes hdeletes] at hgone
      exact absurd hpresent hgone
  · rintro ⟨h', hd, hremoved⟩
    by_cases hs : RemovesSecret env instanceName force cfg
        (without (locate env.toSystem (configPath env.toSystem instanceName)) h')
    · rw [files_of_removesSecret hd hs, Finmap.mem_erase]
      exact fun hmem => hmem.1 rfl
    · rw [files_of_not_removesSecret hd hs, Finmap.mem_erase]
      exact fun hmem => hmem.1 (hremoved.resolve_right hs)

variable (env)

/-- `Delete` keeps its promise unless it removes a secret that is used only by
configurations that cannot be loaded, or a file that is a configuration and its
own secret. -/
theorem delete_spares_secrets_iff (r : Reader env.toSystem) (instanceName : Bytes) (force : Bool)
    (h : Host) :
    DeletesSafely r instanceName h.files
        (finalState (delete env instanceName force ⟨h, []⟩)).state.files ↔
      ¬ ∃ cfg h', Exposes env r instanceName force h cfg h' := by
  constructor
  · rintro hsafe ⟨cfg, h', hexposes⟩
    have hd := hexposes.deletes
    obtain ⟨name, happart, huses⟩ := hexposes.used
    refine hsafe.secret cfg hd.loads hexposes.present ?_ name happart huses
    rw [secret_removed_iff hd.loads hexposes.present]
    refine ⟨h', hd, ?_⟩
    by_cases hsame : locate env.toSystem cfg.auth.secretFile =
        locate env.toSystem (configPath env.toSystem instanceName)
    · exact Or.inl hsame
    · obtain ⟨hasks, hremoves, hyes, hnone⟩ := hexposes.removed.resolve_left hsame
      exact Or.inr ((removesSecret_iff r hd).mpr
        ⟨hsame, hexposes.present, hasks, hremoves, hyes, hnone⟩)
  · intro hnot
    refine ⟨?_, delete_rest instanceName force h []⟩
    intro cfg hload hpresent hgone name happart huses
    obtain ⟨h', hd, hremoved⟩ := (secret_removed_iff hload hpresent []).mp hgone
    refine hnot ⟨cfg, h', hd, hpresent, ⟨name, happart, huses⟩, ?_⟩
    rcases hremoved with hsame | hs
    · exact Or.inl hsame
    · obtain ⟨-, -, hasks, hremoves, hyes, hnone⟩ := (removesSecret_iff r hd).mp hs
      exact Or.inr ⟨hasks, hremoves, hyes, hnone⟩

/-! ## A secret that is lost to another tunnel -/

/-- The small configuration with a role that is refused. -/
def refusedConfig : Config := { sampleConfig with role := ofString "peer" }

/-- The small host, on which files can be removed and programs succeed. -/
def sharedEnvironment : Environment :=
  { sampleSystem with
    removes := fun _ => true
    exits := fun _ => some 0
    journal := true }

/-- Files are read as the decoder reads them, also those that are refused. -/
def sharedReader : Reader sharedEnvironment.toSystem where
  named data := (sampleSystem.decode data).map fun cfg => cfg.auth.secretFile
  decoded data cfg h := by
    rw [show sampleSystem.decode data = some cfg from h, Option.map_some]

/-- Both configurations name the same secret. -/
def sharedFiles : Table Bytes Bytes :=
  (((∅ : Table Bytes Bytes).insert (ofString "/etc/unknowntunnel/a.json")
      (sampleText sampleConfig)).insert (ofString "/etc/unknowntunnel/b.json")
      (sampleText refusedConfig)).insert (ofString "/key") (List.replicate 32 120)

/-- Both questions are answered with yes. -/
def sharedHost : Host := ⟨[some (ofString "y"), some (ofString "y")], sharedFiles, false⟩

/-- The file of the small configuration is loaded, wherever it is. -/
theorem load_sampleText {path : Bytes} {files : Table Bytes Bytes}
    (h : Finmap.lookup (locate sharedEnvironment.toSystem path) files =
      some (sampleText sampleConfig)) :
    load sharedEnvironment.toSystem path files = .ok (sampleConfig.normalize sampleLibrary) :=
  @load_of_content sharedEnvironment.toSystem path _ files sampleConfig rfl h
    (sampleSystem_decode _) sampleConfig_accepted

theorem sharedEnvironment_load :
    load sharedEnvironment.toSystem (configPath sharedEnvironment.toSystem (ofString "a"))
      sharedFiles = .ok (sampleConfig.normalize sampleLibrary) :=
  load_sampleText (by decide +kernel)

/-- No other configuration with the secret can be loaded. -/
theorem sharedEnvironment_refused (name : Bytes)
    (happart : Apart sharedEnvironment.toSystem name (ofString "a")) (other : Config) :
    load sharedEnvironment.toSystem (configPath sharedEnvironment.toSystem name) sharedFiles ≠
      .ok other := by
  intro hload
  obtain ⟨data, raw, hread, hraw, haccepted, -⟩ := load_eq_ok_iff.mp hload
  have hdata := lookup_of_readFile hread
  have hpath : locate sharedEnvironment.toSystem
      (configPath sharedEnvironment.toSystem (ofString "a")) =
        ofString "/etc/unknowntunnel/a.json" := by decide +kernel
  rw [Apart, hpath] at happart
  rw [sharedFiles, Table.lookup_insert_eq, Table.lookup_insert_eq, Table.lookup_insert_eq,
    if_neg happart] at hdata
  split at hdata
  · cases hdata
    have hnone : sharedEnvironment.decode (List.replicate 32 120) = none := by decide +kernel
    rw [hnone] at hraw
    cases hraw
  split at hdata
  · cases hdata
    have hrefused : sharedEnvironment.decode (sampleText refusedConfig) = some refusedConfig :=
      sampleSystem_decode _
    rw [hrefused] at hraw
    cases hraw
    exact absurd haccepted (by decide +kernel)
  · cases hdata

theorem shared_secret_removed :
    ¬ DeletesSafely sharedReader (ofString "a") sharedFiles (finalState
      (delete sharedEnvironment (ofString "a") false ⟨sharedHost, []⟩)).state.files := by
  intro hsafe
  have hd : Deletes sharedEnvironment (ofString "a") false sharedHost
      (sampleConfig.normalize sampleLibrary) ⟨[some (ofString "y")], sharedFiles, false⟩ :=
    ⟨rfl, sharedEnvironment_load, rfl, rfl⟩
  have hpresent : locate sharedEnvironment.toSystem (ofString "key") ∈ sharedFiles :=
    Finmap.lookup_isSome.mp (by decide +kernel)
  have hremoves := (removesSecret_iff sharedReader hd).mpr ⟨by decide +kernel, hpresent, rfl, rfl,
    ⟨_, rfl⟩, fun name happart _ => sharedEnvironment_refused name happart⟩
  have hgone := (secret_removed_iff (h := sharedHost) sharedEnvironment_load hpresent []).mpr
    ⟨_, hd, Or.inr hremoves⟩
  refine hsafe.secret _ sharedEnvironment_load hpresent hgone (ofString "b") (by decide +kernel)
    ⟨by decide +kernel, sampleText refusedConfig, by decide +kernel, ofString "key", ?_, rfl⟩
  exact sharedReader.decoded _ refusedConfig (sampleSystem_decode _)

end UnknownTunnel.Admin.Panel
