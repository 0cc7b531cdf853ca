import Cascade.Proofs.Config.Loading

/-!
Configurations in two layers. The global file with the local file laid over it loads like one file that
holds what the two come to: the same configuration, or the same issues with it, and the same warnings
on the way. A file that is missing or blank counts as one without entries. One file that is both
layers counts once, and a file that cannot be read stops the loading.
-/

namespace Cascade

namespace FileTree

variable {tree : FileTree} {path other : Path}

theorem collapse_of_follow? {directory names result : List String}
    (h : tree.follow? directory names = some result) :
    Path.collapse directory.reverse names = result := by
  induction names generalizing directory with
  | nil =>
      obtain rfl := Option.some.inj h
      exact directory.reverse_reverse
  | cons name rest ih =>
      rw [follow?] at h
      rw [Path.collapse]
      split at h
      · split at h
        · rename_i hback
          rw [if_pos hback, List.tail_reverse]
          exact ih h
        · rename_i hname
          rw [if_neg hname, ← ih h, List.reverse_append]
          rfl
      · cases h

theorem names_of_find? {names : List String} {node : FileNode}
    (h : tree.find? path = some (names, node)) :
    names = (Path.absolute tree.current path).names ∧ tree.node? names = some node := by
  obtain ⟨followed, hfollow, h⟩ := Option.bind_eq_some_iff.mp h
  obtain ⟨found, hnode, h⟩ := Option.bind_eq_some_iff.mp h
  obtain ⟨rfl, rfl⟩ := Prod.mk.inj (Option.some.inj h)
  exact ⟨(collapse_of_follow? hfollow).symm, hnode⟩

theorem exists_of_isFile (h : tree.isFile path = true) :
    ∃ names node, tree.find? path = some (names, node) := by
  rw [isFile] at h
  split at h
  · exact ⟨_, _, by assumption⟩
  · exact ⟨_, _, by assumption⟩
  · cases h

theorem find?_eq_of_absolute_eq (hpath : tree.isFile path = true) (hother : tree.isFile other = true)
    (heq : Path.absolute tree.current path = Path.absolute tree.current other) :
    tree.find? path = tree.find? other := by
  obtain ⟨names, node, hfind⟩ := exists_of_isFile hpath
  obtain ⟨others, last, hfound⟩ := exists_of_isFile hother
  obtain ⟨hnames, hnode⟩ := names_of_find? hfind
  obtain ⟨hothers, hlast⟩ := names_of_find? hfound
  have hsame : names = others := by rw [hnames, hothers, heq]
  subst hsame
  obtain rfl := Option.some.inj (hnode.symm.trans hlast)
  rw [hfind, hfound]

end FileTree

namespace Config

variable {files : FileTree} {path other : Path} {entries : Entries Value}

/-! ### Contents -/

/-- The entries of a layer; a file that is missing has none. -/
def contentOf (files : FileTree) (path : Path) : Except Fault (Entries Value) :=
  if files.isFile path then readLayer files path else .ok []

/-- A layer that is missing or blank, or whose object has no entries. -/
def IsVacant (files : FileTree) (path : Path) : Prop :=
  files.isFile path = false ∨
    ∃ bytes text, files.read path = .ok bytes ∧ Text.Utf8.read bytes = .ok text ∧
      (Text.Blank.isAllBlank text = true ∨ Json.read text = .ok (.map []))

def SameFile (files : FileTree) (path other : Path) : Prop :=
  files.isFile path = true ∧ files.isFile other = true ∧
    Path.absolute files.current path = Path.absolute files.current other

theorem contentOf_of_isVacant (h : IsVacant files path) : contentOf files path = .ok [] := by
  obtain hmissing | ⟨bytes, text, hbytes, htext, hempty⟩ := h
  · rw [contentOf, hmissing]
    rfl
  · have hread : readLayer files path = .ok [] := by
      rw [readLayer, hbytes]
      dsimp only
      rw [htext]
      dsimp only
      rw [readText]
      split
      · rfl
      · rename_i hblank
        rw [hempty.resolve_left hblank]
    rw [contentOf, hread]
    exact ite_self _

theorem isObject_of_contentOf (h : contentOf files path = .ok entries) : IsObject entries := by
  rw [contentOf] at h
  split at h
  · exact isObject_of_readLayer h
  · obtain rfl := Except.ok.inj h
    exact .empty

theorem readText_of_readText {text : List Char} (h : readText path text = .ok entries) :
    readText other text = .ok entries := by
  rw [readText] at h ⊢
  split at h
  · rename_i hblank
    rw [if_pos hblank]
    exact h
  · rename_i hblank
    rw [if_neg hblank]
    cases hread : Json.read text with
    | error refusal =>
        rw [hread] at h
        cases h
    | ok value =>
        rw [hread] at h
        cases value with
        | map found => exact h
        | _ => cases h

theorem contentOf_of_sameFile (hsame : SameFile files path other)
    (h : contentOf files path = .ok entries) : contentOf files other = .ok entries := by
  obtain ⟨hpath, hother, heq⟩ := hsame
  have hread : files.read other = files.read path := by
    have hfind := FileTree.find?_eq_of_absolute_eq hpath hother heq
    obtain ⟨names, node, hnode⟩ := FileTree.exists_of_isFile hpath
    rw [FileTree.read, FileTree.read, ← hfind, hnode]
    cases node <;> rfl
  rw [contentOf, if_pos hpath, readLayer] at h
  rw [contentOf, if_pos hother, readLayer, hread]
  cases hbytes : files.read path with
  | error refusal =>
      rw [hbytes] at h
      cases h
  | ok bytes =>
      rw [hbytes] at h
      dsimp only at h ⊢
      cases htext : Text.Utf8.read bytes with
      | error refusal =>
          rw [htext] at h
          cases h
      | ok text =>
          rw [htext] at h
          exact readText_of_readText h

/-! ### Layers -/

/-- What has been read: the entries, and a file that added to them if there are any. -/
def IsSourced (read : Entries Value × Option Path) : Prop :=
  read.2 = none → read.1 = []

theorem addLayer_of_content {read : Entries Value × Option Path} (hsourced : IsSourced read)
    (hcontent : contentOf files path = .ok entries)
    (hrepeated : ∀ last, read.2 = some last →
      Path.absolute files.current path = Path.absolute files.current last →
        merge read.1 entries = read.1) :
    ∃ source, addLayer files read path = .ok (merge read.1 entries, source) ∧
      IsSourced (merge read.1 entries, source) ∧
        (source = read.2 ∨ source = some path ∧ files.isFile path = true) := by
  obtain ⟨before, source⟩ := read
  by_cases hagain : (source.any fun last =>
      Path.absolute files.current path = Path.absolute files.current last) = true
  · cases source with
    | none => cases hagain
    | some last =>
        rw [addLayer, if_pos (by rw [hagain, Bool.true_or]),
          hrepeated last rfl (of_decide_eq_true hagain)]
        exact ⟨_, rfl, hsourced, .inl rfl⟩
  · by_cases hfile : files.isFile path = true
    · rw [contentOf, if_pos hfile] at hcontent
      rw [addLayer, if_neg (by rw [hfile]; simpa using hagain), hcontent]
      cases entries with
      | nil =>
          rw [merge_nil]
          exact ⟨source, rfl, hsourced, .inl rfl⟩
      | cons entry rest =>
          have hnamed : IsSourced (merge before (entry :: rest), some path) := by
            intro hnone
            cases hnone
          exact ⟨some path, rfl, hnamed, .inr ⟨rfl, hfile⟩⟩
    · rw [contentOf, if_neg hfile] at hcontent
      obtain rfl := Except.ok.inj hcontent
      rw [addLayer, if_pos (by simp [hfile]), merge_nil]
      exact ⟨source, rfl, hsourced, .inl rfl⟩

theorem addLayer_of_refused {read : Entries Value × Option Path} {fault : Fault}
    (hcontent : contentOf files path = .error fault)
    (hrepeated : ∀ last, read.2 = some last →
      Path.absolute files.current path ≠ Path.absolute files.current last) :
    addLayer files read path = .error fault := by
  obtain ⟨before, source⟩ := read
  by_cases hfile : files.isFile path = true
  · rw [contentOf, if_pos hfile] at hcontent
    have hfirst : (source.any fun last =>
        Path.absolute files.current path = Path.absolute files.current last) = false := by
      cases source with
      | none => rfl
      | some last => exact decide_eq_false (hrepeated last rfl)
    rw [addLayer, if_neg (by rw [hfirst, hfile]; exact Bool.false_ne_true), hcontent]
    rfl
  · rw [contentOf, if_neg hfile] at hcontent
    cases hcontent

/-! ### Both layers -/

def globalFile (host : Host) : Path :=
  fileBelow (Path.ofText (Path.expandHome host.home "~"))

/-- One configuration, or the same issues of two sources, after the same warnings. -/
def SameVerdict (first second : Loaded) : Prop :=
  first.warnings = second.warnings ∧
    ((∃ config, first.result = .ok config ∧ second.result = .ok config) ∨
      ∃ issues source other, first.result = .error (.invalidConfig source issues) ∧
        second.result = .error (.invalidConfig other issues))

/-- The layers of a directory load like any one file that holds some entries, for a host with the same
variables and places. -/
def LoadsLike (host : Host) (directory : Path) (entries : Entries Value) : Prop :=
  ∀ (single : Host) (path : Path), single.environment = host.environment →
    single.place = host.place → single.files.isFile path = true →
      readLayer single.files path = .ok entries →
        SameVerdict (load host none (some directory)) (load single (some path) none)

theorem sameVerdict_validate {host single : Host} (henvironment : single.environment = host.environment)
    (hplace : single.place = host.place) (source other : Path) (entries : Entries Value) :
    SameVerdict (validate host source entries) (validate single other entries) := by
  have hresult : ∀ (host : Host) (source : Path), (validate host source entries).result =
      (ofEntries host.place (substituteEntries host.environment entries).1).mapError
        (.invalidConfig source.toText) := fun _ _ => rfl
  have hwarnings : ∀ (host : Host) (source : Path), (validate host source entries).warnings =
      (substituteEntries host.environment entries).2.map unsetWarning := fun _ _ => rfl
  rw [SameVerdict, hwarnings, hwarnings, hresult, hresult, henvironment, hplace]
  refine ⟨rfl, ?_⟩
  cases ofEntries host.place (substituteEntries host.environment entries).1 with
  | ok config => exact .inl ⟨config, rfl, rfl⟩
  | error issues => exact .inr ⟨issues, source.toText, other.toText, rfl, rfl⟩

section Both

variable {host : Host} {directory : Path} {first second : Entries Value}

theorem merge_of_same_path (hglobal : contentOf host.files (globalFile host) = .ok first)
    (hlocal : contentOf host.files (fileBelow directory) = .ok second)
    (hfile : host.files.isFile (globalFile host) = true)
    (hsame : Path.absolute host.files.current (fileBelow directory) =
      Path.absolute host.files.current (globalFile host)) : merge first second = first := by
  by_cases hpresent : host.files.isFile (fileBelow directory) = true
  · have hcontent := contentOf_of_sameFile ⟨hfile, hpresent, hsame.symm⟩ hglobal
    obtain rfl := Except.ok.inj (hcontent.symm.trans hlocal)
    exact merge_self (isObject_of_contentOf hglobal)
  · rw [contentOf, if_neg hpresent] at hlocal
    obtain rfl := Except.ok.inj hlocal
    exact merge_nil first

theorem addLayer_globalFile (hglobal : contentOf host.files (globalFile host) = .ok first) :
    ∃ source, addLayer host.files ([], none) (globalFile host) = .ok (first, source) ∧
      IsSourced (first, source) ∧
        ∀ last, source = some last →
          last = globalFile host ∧ host.files.isFile (globalFile host) = true := by
  have hnames := (isObject_of_contentOf hglobal).names
  have hstart : IsSourced (([], none) : Entries Value × Option Path) := fun _ => rfl
  obtain ⟨source, hadded, hsourced, horigin⟩ :=
    addLayer_of_content hstart hglobal fun last hlast => nomatch hlast
  rw [nil_merge hnames] at hadded hsourced
  refine ⟨source, hadded, hsourced, fun last hlast => ?_⟩
  rcases horigin with rfl | ⟨rfl, hfile⟩
  · cases hlast
  · exact ⟨(Option.some.inj hlast).symm, hfile⟩

theorem result_of_layers_refused {fault : Fault}
    (h : (layers host directory).foldlM (addLayer host.files) ([], none) = .error fault) :
    (load host none (some directory)).result = .error fault := by
  change (loadLayers host directory).result = _
  rcases loadLayers_cases host directory with ⟨other, hother, hload⟩ | ⟨_, _, hok, -⟩ | ⟨_, hok, -⟩
  · rw [hload]
    exact congrArg Except.error (Except.error.inj (hother.symm.trans h))
  · cases hok.symm.trans h
  · cases hok.symm.trans h

theorem loadsLike_merge (hglobal : contentOf host.files (globalFile host) = .ok first)
    (hlocal : contentOf host.files (fileBelow directory) = .ok second) :
    LoadsLike host directory (merge first second) := by
  intro single path henvironment hplace hfile hread
  obtain ⟨source, hadded, hsourced, horigin⟩ := addLayer_globalFile hglobal
  obtain ⟨last, hlast, hending, -⟩ := addLayer_of_content hsourced hlocal fun other hother hsame => by
    obtain ⟨rfl, hpresent⟩ := horigin other hother
    exact merge_of_same_path hglobal hlocal hpresent hsame
  have hlayers : (layers host directory).foldlM (addLayer host.files) ([], none) =
      .ok (merge first second, last) := by
    change (addLayer host.files ([], none) (globalFile host) >>= fun read =>
      addLayer host.files read (fileBelow directory) >>= pure) = _
    rw [hadded]
    exact (bind_pure _).trans hlast
  have hsingle : load single (some path) none = validate single path (merge first second) := by
    rw [load, loadFile, if_pos hfile, hread]
  rw [hsingle]
  rcases loadLayers_cases host directory with
    ⟨fault, hfails, -⟩ | ⟨entries, found, hok, hload⟩ | ⟨entries, hok, hload⟩
  · cases hfails.symm.trans hlayers
  · obtain ⟨rfl, rfl⟩ := Prod.mk.inj (Except.ok.inj (hok.symm.trans hlayers))
    change SameVerdict (loadLayers host directory) _
    rw [hload]
    exact sameVerdict_validate henvironment hplace found path _
  · obtain ⟨rfl, rfl⟩ := Prod.mk.inj (Except.ok.inj (hok.symm.trans hlayers))
    change SameVerdict (loadLayers host directory) _
    have hempty : merge first second = [] := hending rfl
    rw [hload, hempty]
    exact ⟨rfl, .inl ⟨standard, rfl, rfl⟩⟩

theorem load_of_global_refused {fault : Fault}
    (hglobal : contentOf host.files (globalFile host) = .error fault) :
    (load host none (some directory)).result = .error fault := by
  have hadded : addLayer host.files ([], none) (globalFile host) = .error fault :=
    addLayer_of_refused hglobal fun last hlast => nomatch hlast
  have hlayers : (layers host directory).foldlM (addLayer host.files) ([], none) = .error fault := by
    change (addLayer host.files ([], none) (globalFile host) >>= _) = _
    rw [hadded]
    rfl
  exact result_of_layers_refused hlayers

theorem load_of_local_refused {fault : Fault}
    (hglobal : contentOf host.files (globalFile host) = .ok first)
    (hlocal : contentOf host.files (fileBelow directory) = .error fault) :
    (load host none (some directory)).result = .error fault := by
  obtain ⟨source, hadded, -, horigin⟩ := addLayer_globalFile hglobal
  have hpresent : host.files.isFile (fileBelow directory) = true := by
    by_contra hmissing
    rw [contentOf, if_neg hmissing] at hlocal
    cases hlocal
  have hlast : addLayer host.files (first, source) (fileBelow directory) = .error fault := by
    refine addLayer_of_refused hlocal fun other hother hsame => ?_
    obtain ⟨rfl, hfile⟩ := horigin other hother
    -- One file would have entries under one path and none under the other.
    cases (contentOf_of_sameFile ⟨hfile, hpresent, hsame.symm⟩ hglobal).symm.trans hlocal
  have hlayers : (layers host directory).foldlM (addLayer host.files) ([], none) = .error fault := by
    change (addLayer host.files ([], none) (globalFile host) >>= fun read =>
      addLayer host.files read (fileBelow directory) >>= pure) = _
    rw [hadded]
    exact (bind_pure _).trans hlast
  exact result_of_layers_refused hlayers

end Both

/-- Loading in layers comes to loading one file that holds the local entries laid over the global ones.
A layer without entries adds nothing, one file that is both layers counts once, and a layer that cannot
be read fails the loading whatever the other one holds. The home directory, which has the global layer,
is known to the host. -/
theorem layers_load_as_merged (host : Host) (directory : Path) :
    (∀ first second : Entries Value, contentOf host.files (globalFile host) = .ok first →
      contentOf host.files (fileBelow directory) = .ok second →
        LoadsLike host directory (merge first second) ∧
          (IsVacant host.files (globalFile host) → LoadsLike host directory second) ∧
          (IsVacant host.files (fileBelow directory) → LoadsLike host directory first) ∧
          (SameFile host.files (globalFile host) (fileBelow directory) →
            LoadsLike host directory first)) ∧
      ∀ fault : Fault, contentOf host.files (globalFile host) = .error fault ∨
        (∃ first, contentOf host.files (globalFile host) = .ok first ∧
          contentOf host.files (fileBelow directory) = .error fault) →
        (load host none (some directory)).result = .error fault := by
  refine ⟨fun first second hglobal hlocal => ?_, ?_⟩
  · have hmerged := loadsLike_merge hglobal hlocal
    refine ⟨hmerged, fun hvacant => ?_, fun hvacant => ?_, fun hsame => ?_⟩
    · obtain rfl := Except.ok.inj (hglobal.symm.trans (contentOf_of_isVacant hvacant))
      rwa [nil_merge (isObject_of_contentOf hlocal).names] at hmerged
    · obtain rfl := Except.ok.inj (hlocal.symm.trans (contentOf_of_isVacant hvacant))
      rwa [merge_nil] at hmerged
    · rwa [merge_of_same_path hglobal hlocal hsame.1 hsame.2.2.symm] at hmerged
  · rintro fault (hglobal | ⟨first, hglobal, hlocal⟩)
    · exact load_of_global_refused hglobal
    · exact load_of_local_refused hglobal hlocal

/-- The truth values of entries that are nothing else. -/
def switches? : Entries Value → Option (List (String × Bool))
  | [] => some []
  | (name, .boolean flag) :: rest => (switches? rest).map ((name, flag) :: ·)
  | _ => none

def ofSwitches (switches : List (String × Bool)) : Entries Value :=
  switches.map fun switch => (switch.1, .boolean switch.2)

theorem eq_ofSwitches {read : Except Fault (Entries Value)} {switches : List (String × Bool)}
    (h : read.toOption.bind switches? = some switches) : read = .ok (ofSwitches switches) := by
  cases read with
  | error fault => cases h
  | ok entries =>
      refine congrArg Except.ok ?_
      change switches? entries = some switches at h
      induction entries generalizing switches with
      | nil =>
          obtain rfl := Option.some.inj h
          rfl
      | cons entry rest ih =>
          obtain ⟨name, value⟩ := entry
          cases value with
          | boolean flag =>
              obtain ⟨others, hothers, rfl⟩ := Option.map_eq_some_iff.mp h
              rw [ih hothers]
              rfl
          | _ => cases h

/-- A host whose home directory has a global file, and a working directory a local one. -/
def layeredHost : Host where
  files := ⟨[([".cmdlets"], .directory),
    ([".cmdlets", "config.json"], .file (Text.Utf8.encode "\x7b\"exit_on_error\":false\x7d".toList)),
    (["work"], .directory), (["work", ".cmdlets"], .directory),
    (["work", ".cmdlets", "config.json"],
      .file (Text.Utf8.encode "\x7b\"show_hidden\":true\x7d".toList))], ⟨"/", []⟩⟩
  environment := []
  home := "/"

def mergedHost : Host :=
  hostWith (Text.Utf8.encode "\x7b\"exit_on_error\":false, \"show_hidden\":true\x7d".toList)

/-- The same host with a global file that ends early. -/
def brokenHost : Host :=
  { layeredHost with
    files.nodes := ([".cmdlets", "config.json"], .file (Text.Utf8.encode ['['])) ::
      layeredHost.files.nodes }

/-- Two files with a setting each load like one file with both; if one of them is broken, nothing is
loaded. -/
theorem layeredHost_loads_as_merged :
    contentOf layeredHost.files (globalFile layeredHost) =
      .ok (ofSwitches [("exit_on_error", false)]) ∧
      contentOf layeredHost.files (fileBelow ⟨"/", ["work"]⟩) =
        .ok (ofSwitches [("show_hidden", true)]) ∧
      SameVerdict (load layeredHost none (some ⟨"/", ["work"]⟩))
        (load mergedHost (some namedFile) none) ∧
      ∃ fault, contentOf brokenHost.files (globalFile brokenHost) = .error fault ∧
        (load brokenHost none (some ⟨"/", ["work"]⟩)).result = .error fault := by
  have hglobal := eq_ofSwitches (show
    (contentOf layeredHost.files (globalFile layeredHost)).toOption.bind switches? =
      some [("exit_on_error", false)] by decide +kernel)
  have hlocal := eq_ofSwitches (show
    (contentOf layeredHost.files (fileBelow ⟨"/", ["work"]⟩)).toOption.bind switches? =
      some [("show_hidden", true)] by decide +kernel)
  have hmerged := eq_ofSwitches (show
    (readLayer mergedHost.files namedFile).toOption.bind switches? =
      some [("exit_on_error", false), ("show_hidden", true)] by decide +kernel)
  have hpresent : mergedHost.files.isFile namedFile = true := by decide +kernel
  have hlike := ((layers_load_as_merged layeredHost ⟨"/", ["work"]⟩).1 _ _ hglobal hlocal).1
  refine ⟨hglobal, hlocal, hlike mergedHost namedFile rfl rfl hpresent hmerged, ?_⟩
  have hbroken : (contentOf brokenHost.files (globalFile brokenHost)).toOption.isNone = true := by
    decide +kernel
  cases hcontent : contentOf brokenHost.files (globalFile brokenHost) with
  | ok entries =>
      rw [hcontent] at hbroken
      cases hbroken
  | error fault => exact ⟨fault, rfl, (layers_load_as_merged brokenHost _).2 fault (.inl hcontent)⟩

end Config

end Cascade
