import Cascade.CommandLine.Session
import Cascade.Proofs.Config.Objects
import Mathlib.Data.List.Basic

/-!
What loading a configuration comes to. A file that holds a text gives the entries of a value of JSON, or
it is refused as a configuration; a session reports that by one line. Bytes that are no text are not
refused in this way: the failure to decode them goes through.
-/

namespace Cascade

/-- Whether a failure says that there is no configuration to be had: it cannot be read, or it is not
valid. -/
def Fault.isConfiguration : Fault → Bool
  | .config _ | .invalidConfig _ _ => true
  | _ => false

namespace Config

open Text

def layers (host : Host) (directory : Path) : List Path :=
  [fileBelow (Path.ofText (Path.expandHome host.home "~")), fileBelow directory]

/-- The files from which a configuration is loaded. -/
def sources (host : Host) (path directory : Option Path) : List Path :=
  match path with
  | some path => [path]
  | none => layers host (directory.getD host.files.current)

/-- Bytes that are no text, and the failure to decode them. -/
def FailsToDecode (files : FileTree) (path : Path) (fault : Fault) : Prop :=
  ∃ bytes refusal, files.read path = .ok bytes ∧ ¬ Utf8.IsText bytes ∧
    fault = .because .encoding (encodingMessage refusal)

/-- A result, or a failure that says that there is no configuration to be had. -/
def OrRefused {α : Type} (result : Except Fault α) (proper : α → Prop) : Prop :=
  (∃ value, result = .ok value ∧ proper value) ∨
    ∃ fault, result = .error fault ∧ fault.isConfiguration = true

def IsObject (entries : Entries Value) : Prop :=
  Value.IsJson (.map entries)

/-! ### One file -/

theorem readText_orRefused (path : Path) (text : List Char) :
    OrRefused (readText path text) IsObject := by
  rw [readText]
  split
  · exact .inl ⟨[], rfl, .empty⟩
  · cases hread : Json.read text with
    | error refusal => exact .inr ⟨_, rfl, rfl⟩
    | ok value =>
        have hjson := Json.isJson_of_read hread
        cases value with
        | map entries => exact .inl ⟨entries, rfl, hjson⟩
        | _ => exact .inr ⟨_, rfl, rfl⟩

theorem readLayer_cases (files : FileTree) (path : Path) :
    OrRefused (readLayer files path) IsObject ∨
      ∃ fault, readLayer files path = .error fault ∧ FailsToDecode files path fault := by
  rw [readLayer]
  cases hbytes : files.read path with
  | error refusal => exact .inl (.inr ⟨_, rfl, rfl⟩)
  | ok bytes =>
      dsimp only
      cases htext : Utf8.read bytes with
      | ok text => exact .inl (readText_orRefused path text)
      | error refusal =>
          refine .inr ⟨_, rfl, bytes, refusal, hbytes, fun hholds => ?_, rfl⟩
          obtain ⟨text, hread⟩ := Utf8.isText_iff.mp hholds
          rw [hread] at htext
          cases htext

theorem isObject_of_readLayer {files : FileTree} {path : Path} {entries : Entries Value}
    (h : readLayer files path = .ok entries) : IsObject entries := by
  obtain (⟨found, hfound, hobject⟩ | ⟨fault, hfault, -⟩) | ⟨fault, hfault, -⟩ :=
    readLayer_cases files path
  · obtain rfl := Except.ok.inj (hfound.symm.trans h)
    exact hobject
  · cases hfault.symm.trans h
  · cases hfault.symm.trans h

/-! ### All files -/

theorem validate_orRefused (host : Host) (source : Path) (entries : Entries Value) :
    OrRefused (validate host source entries).result fun _ => True := by
  have hresult : (validate host source entries).result =
      (ofEntries host.place (substituteEntries host.environment entries).1).mapError
        (.invalidConfig source.toText) := rfl
  rw [hresult]
  cases ofEntries host.place (substituteEntries host.environment entries).1 with
  | ok config => exact .inl ⟨config, rfl, trivial⟩
  | error issues => exact .inr ⟨.invalidConfig source.toText issues, rfl, rfl⟩

theorem readLayer_of_addLayer {files : FileTree} {read : Entries Value × Option Path} {path : Path}
    {fault : Fault} (h : addLayer files read path = .error fault) :
    readLayer files path = .error fault := by
  rw [addLayer] at h
  split at h
  · cases h
  · cases hentries : readLayer files path with
    | error other =>
        rw [hentries] at h
        exact congrArg Except.error (Except.error.inj h)
    | ok entries =>
        rw [hentries] at h
        cases h

theorem exists_of_foldlM_addLayer {files : FileTree} {layers : List Path}
    {read : Entries Value × Option Path} {fault : Fault}
    (h : layers.foldlM (addLayer files) read = .error fault) :
    ∃ layer ∈ layers, readLayer files layer = .error fault := by
  induction layers generalizing read with
  | nil => cases h
  | cons layer rest ih =>
      rw [List.foldlM_cons] at h
      cases hlayer : addLayer files read layer with
      | error other =>
          rw [hlayer] at h
          obtain rfl := Except.error.inj h
          exact ⟨layer, List.mem_cons_self, readLayer_of_addLayer hlayer⟩
      | ok next =>
          rw [hlayer] at h
          obtain ⟨other, hmem, hother⟩ := ih h
          exact ⟨other, List.mem_cons_of_mem layer hmem, hother⟩

theorem loadLayers_cases (host : Host) (directory : Path) :
    (∃ fault, (layers host directory).foldlM (addLayer host.files) ([], none) = .error fault ∧
      loadLayers host directory = ⟨[], .error fault⟩) ∨
    (∃ entries source,
      (layers host directory).foldlM (addLayer host.files) ([], none) = .ok (entries, some source) ∧
        loadLayers host directory = validate host source entries) ∨
    ∃ entries, (layers host directory).foldlM (addLayer host.files) ([], none) = .ok (entries, none) ∧
      loadLayers host directory = ⟨[], .ok standard⟩ := by
  delta loadLayers layers
  dsimp only
  cases [fileBelow (Path.ofText (Path.expandHome host.home "~")), fileBelow directory].foldlM
    (addLayer host.files) ([], none) with
  | error fault => exact .inl ⟨fault, rfl, rfl⟩
  | ok read =>
      obtain ⟨entries, _ | source⟩ := read
      · exact .inr (.inr ⟨entries, rfl, rfl⟩)
      · exact .inr (.inl ⟨entries, source, rfl, rfl⟩)

theorem load_cases (host : Host) (path directory : Option Path) :
    OrRefused (load host path directory).result (fun _ => True) ∨
      ∃ fault, (load host path directory).result = .error fault ∧
        ∃ source ∈ sources host path directory, readLayer host.files source = .error fault := by
  cases path with
  | some path =>
      rw [load, loadFile]
      split
      · cases hread : readLayer host.files path with
        | ok entries => exact .inl (validate_orRefused host path entries)
        | error fault => exact .inr ⟨fault, rfl, path, List.mem_cons_self, hread⟩
      · exact .inl (.inr ⟨_, rfl, rfl⟩)
  | none =>
      rcases loadLayers_cases host (directory.getD host.files.current) with
        ⟨fault, hlayers, hload⟩ | ⟨entries, source, -, hload⟩ | ⟨entries, -, hload⟩
      · exact .inr ⟨fault, congrArg Loaded.result hload, exists_of_foldlM_addLayer hlayers⟩
      · rw [load, hload]
        exact .inl (validate_orRefused host source entries)
      · exact .inl (.inl ⟨standard, congrArg Loaded.result hload, trivial⟩)

theorem run_of_refused (fuel : Nat) {host : Host} {options : CommandLine.Options} {fault : Fault}
    (hload : (load host options.config none).result = .error fault)
    (hfault : fault.isConfiguration = true) :
    CommandLine.Session.run fuel host options =
      ⟨CommandLine.Session.apart ((load host options.config none).warnings.map Item.warning ++
        [.printed .error ("Error: " ++ fault.message)]), 0, some (.ok CommandLine.misuseCode)⟩ := by
  have hmisuse : CommandLine.Session.isMisuse fault = true := by
    cases fault with
    | config message => rfl
    | invalidConfig source issues => rfl
    | _ => cases hfault
  simp only [CommandLine.Session.run, hload, CommandLine.Session.refused, if_pos hmisuse]

/-- When the files of a configuration hold texts, each of them gives entries of JSON or is refused as a
configuration, and so is the whole: a configuration is loaded, or it is refused, and then a session
reports the refusal by one line and ends as misuse. The home directory is known to the host, and the home
directory of another user is not looked up: such a path stands as it is written. -/
theorem loads_or_is_refused (host : Host) (path directory : Option Path)
    (htexts : ∀ source ∈ sources host path directory, ∀ bytes,
      host.files.read source = .ok bytes → Utf8.IsText bytes) :
    (∀ source ∈ sources host path directory,
      OrRefused (readLayer host.files source) IsObject) ∧
      OrRefused (load host path directory).result (fun _ => True) ∧
      ∀ (fuel : Nat) (options : CommandLine.Options) (fault : Fault), options.config = path →
        directory = none → (load host path directory).result = .error fault →
        CommandLine.Session.run fuel host options =
          ⟨CommandLine.Session.apart ((load host path directory).warnings.map Item.warning ++
            [.printed .error ("Error: " ++ fault.message)]), 0,
            some (.ok CommandLine.misuseCode)⟩ := by
  have hlayers : ∀ source ∈ sources host path directory,
      OrRefused (readLayer host.files source) IsObject := by
    intro source hmem
    refine (readLayer_cases host.files source).resolve_right ?_
    rintro ⟨fault, -, bytes, refusal, hbytes, hno, -⟩
    exact hno (htexts source hmem bytes hbytes)
  have hload : OrRefused (load host path directory).result (fun _ => True) := by
    refine (load_cases host path directory).elim id ?_
    rintro ⟨fault, hfault, source, hmem, hread⟩
    obtain ⟨entries, hentries, -⟩ | ⟨other, hother, hconfiguration⟩ := hlayers source hmem
    · cases hentries.symm.trans hread
    · obtain rfl := Except.error.inj (hother.symm.trans hread)
      exact .inr ⟨other, hfault, hconfiguration⟩
  refine ⟨hlayers, hload, ?_⟩
  rintro fuel options fault rfl rfl hfault
  obtain ⟨config, hconfig, -⟩ | ⟨other, hother, hconfiguration⟩ := hload
  · cases hconfig.symm.trans hfault
  · obtain rfl := Except.error.inj (hother.symm.trans hfault)
    exact run_of_refused fuel hfault hconfiguration

/-- A host whose only file is the named configuration. -/
def hostWith (bytes : List Nat) : Host where
  files := ⟨[(["c.json"], .file bytes)], ⟨"/", []⟩⟩
  environment := []
  home := "/"

def namedFile : Path :=
  ⟨"/", ["c.json"]⟩

/-- A command line that names that file. -/
def optionsWithFile : CommandLine.Options :=
  { CommandLine.Options.standard with config := some namedFile }

/-- A list of JSON, with a letter of two bytes. -/
def listText : List Char :=
  ['[', '"', 'é', '"', ']']

/-- A list in the place of the entries is refused by its kind, and the session ends as misuse. -/
theorem list_is_refused :
    (∀ source ∈ sources (hostWith (Utf8.encode listText)) (some namedFile) none, ∀ bytes,
      (hostWith (Utf8.encode listText)).files.read source = .ok bytes → Utf8.IsText bytes) ∧
      CommandLine.Session.run 0 (hostWith (Utf8.encode listText)) optionsWithFile =
        ⟨[(none, .printed .error "Error: config: /c.json must hold a JSON object, got list")], 0,
          some (.ok 2)⟩ := by
  have htexts : ∀ source ∈ sources (hostWith (Utf8.encode listText)) (some namedFile) none,
      ∀ bytes, (hostWith (Utf8.encode listText)).files.read source = .ok bytes →
        Utf8.IsText bytes := by
    intro source hmem bytes hbytes
    obtain rfl := List.mem_singleton.mp hmem
    obtain rfl := Except.ok.inj hbytes
    exact Utf8.isText_encode _
  have hrefused : (load (hostWith (Utf8.encode listText)) (some namedFile) none).result.map
      (fun _ => ()) = .error (.config "config: /c.json must hold a JSON object, got list") := by
    decide +kernel
  have hwarnings : (load (hostWith (Utf8.encode listText)) (some namedFile) none).warnings = [] := by
    decide +kernel
  obtain ⟨-, hload, hreports⟩ := loads_or_is_refused _ _ _ htexts
  obtain ⟨config, hconfig, -⟩ | ⟨fault, hfault, -⟩ := hload
  · rw [hconfig] at hrefused
    cases hrefused
  · obtain rfl : fault = .config "config: /c.json must hold a JSON object, got list" := by
      rw [hfault] at hrefused
      exact Except.error.inj hrefused
    refine ⟨htexts, (hreports 0 optionsWithFile _ rfl rfl hfault).trans ?_⟩
    rw [hwarnings]
    rfl

/-- A failure that is not one of the configuration. -/
def escapes : Except Fault Config → Option Fault
  | .ok _ => none
  | .error fault => if fault.isConfiguration then none else some fault

/-- Bytes that are no text are not refused as a configuration: the failure to decode them goes through
the session, which reports nothing. -/
theorem undecodable_goes_through :
    ¬ OrRefused (load (hostWith [0xff]) (some namedFile) none).result (fun _ => True) ∧
      (CommandLine.Session.run 0 (hostWith [0xff]) optionsWithFile).result =
        some (.error (.because .encoding
          "'utf-8' codec can't decode byte 0xff in position 0: invalid start byte")) := by
  have hescapes : (escapes (load (hostWith [0xff]) (some namedFile) none).result).isSome = true := by
    decide +kernel
  refine ⟨?_, by decide +kernel⟩
  rintro (⟨config, hconfig, -⟩ | ⟨fault, hfault, hconfiguration⟩)
  · rw [hconfig] at hescapes
    cases hescapes
  · rw [hfault, escapes, if_pos hconfiguration] at hescapes
    cases hescapes

end Config

end Cascade
