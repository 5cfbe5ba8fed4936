import HookEvents.Command.Run
import HookEvents.Proofs.Generation.Resolve
import HookEvents.Proofs.Symbol.Roundtrip
import HookEvents.Proofs.Toml.Document
import HookEvents.Proofs.Workspace.WriteOrder

namespace HookEvents

open Toml Text

section Values

theorem natural?_integer {n : Nat} (h : n < Nat.pow 2 64) : natural? (.integer n) = some n := by
  simp [natural?, h]

theorem texts?_array (items : List String) : texts? (.array (items.map .text)) = some items := by
  have hmap : (items.map Toml.text).mapM text? = some (items.map id) :=
    mapM_map_eq_some fun _ _ => rfl
  rwa [List.map_id] at hmap

end Values

def GeneratorConfig.settings (config : GeneratorConfig) : List Setting :=
  [⟨"runtime_namespace", _, _, by decide, denotes_text config.runtimeNamespace⟩,
    ⟨"endpoint_manager", _, _, by decide, denotes_text config.endpointManager⟩,
    ⟨"manipulator_type", _, _, by decide, denotes_text config.manipulatorType⟩,
    ⟨"indent", _, _, by decide, denotes_natural config.indent⟩,
    ⟨"header", _, _, by decide, denotes_bool config.header⟩]

def ScanConfig.settings (config : ScanConfig) : List Setting :=
  [⟨"extensions", _, _, by decide, denotes_texts config.extensions⟩,
    ⟨"max_file_size", _, _, by decide, denotes_natural config.maxFileSize⟩,
    ⟨"skip_generated", _, _, by decide, denotes_bool config.skipGenerated⟩,
    ⟨"follow_links", _, _, by decide, denotes_bool config.followLinks⟩,
    ⟨"type_tables", _, _, by decide, denotes_texts config.typeTables⟩]

def OutputConfig.settings (config : OutputConfig) : List Setting :=
  [⟨"directory", _, _, by decide, denotes_text config.directory⟩,
    ⟨"prune", _, _, by decide, denotes_bool config.prune⟩]

def LogConfig.settings (config : LogConfig) : List Setting :=
  [⟨"level", _, _, by decide, denotes_text config.level⟩]

namespace Config

def tables (config : Config) : List Table :=
  [⟨"generator", config.generator.settings, by decide, by simp [GeneratorConfig.settings]⟩,
    ⟨"scan", config.scan.settings, by decide, by simp [ScanConfig.settings]⟩,
    ⟨"output", config.output.settings, by decide, by simp [OutputConfig.settings]⟩,
    ⟨"log", config.log.settings, by decide, by simp [LogConfig.settings]⟩]

theorem toTomlText_eq (config : Config) :
    config.toTomlText = join "\n" (config.tables.map Table.text) := by
  rfl

def IsSized (config : Config) : Prop :=
  config.generator.indent < Nat.pow 2 64 ∧ config.scan.maxFileSize < Nat.pow 2 64

end Config

theorem GeneratorConfig.ofToml?_settings {config : GeneratorConfig}
    (h : config.indent < Nat.pow 2 64) :
    ofToml? (.table (config.settings.map fun setting => (setting.key, setting.value))) =
      some config := by
  -- every key is found by evaluation, so that only the number is left to decode
  have hread : ofToml? (.table (config.settings.map fun setting => (setting.key, setting.value))) =
      (natural? (.integer config.indent)).bind fun indent => some { config with indent } := rfl
  rw [hread, natural?_integer h]
  rfl

theorem ScanConfig.ofToml?_settings {config : ScanConfig} (h : config.maxFileSize < Nat.pow 2 64) :
    ofToml? (.table (config.settings.map fun setting => (setting.key, setting.value))) =
      some config := by
  have hread : ofToml? (.table (config.settings.map fun setting => (setting.key, setting.value))) =
      (texts? (.array (config.extensions.map .text))).bind fun extensions =>
      (natural? (.integer config.maxFileSize)).bind fun maxFileSize =>
      (texts? (.array (config.typeTables.map .text))).bind fun typeTables =>
        some { config with extensions, maxFileSize, typeTables } := rfl
  rw [hread, natural?_integer h, texts?_array, texts?_array]
  rfl

theorem OutputConfig.ofToml?_settings (config : OutputConfig) :
    ofToml? (.table (config.settings.map fun setting => (setting.key, setting.value))) =
      some config := by
  rfl

theorem LogConfig.ofToml?_settings (config : LogConfig) :
    ofToml? (.table (config.settings.map fun setting => (setting.key, setting.value))) =
      some config := by
  rfl

namespace Config

variable {config : Config} {ending : String}

theorem ofToml?_tables (h : config.IsSized) :
    ofToml? (.table (config.tables.map Table.entry)) = some config := by
  have hread : ofToml? (.table (config.tables.map Table.entry)) =
      (GeneratorConfig.ofToml? (.table (config.generator.settings.map fun setting =>
        (setting.key, setting.value)))).bind fun generator =>
      (ScanConfig.ofToml? (.table (config.scan.settings.map fun setting =>
        (setting.key, setting.value)))).bind fun scan =>
      (OutputConfig.ofToml? (.table (config.output.settings.map fun setting =>
        (setting.key, setting.value)))).bind fun output =>
      (LogConfig.ofToml? (.table (config.log.settings.map fun setting =>
        (setting.key, setting.value)))).bind fun log =>
      some { generator, scan, output, log } := rfl
  rw [hread, GeneratorConfig.ofToml?_settings h.1, ScanConfig.ofToml?_settings h.2,
    OutputConfig.ofToml?_settings, LogConfig.ofToml?_settings]
  rfl

theorem ofTomlText?_toTomlText (h : config.IsSized) (he : ending = "" ∨ ending = "\n") :
    ofTomlText? (config.toTomlText ++ ending) = some config := by
  have hnames : (config.tables.map (·.name)).Nodup := by simp [tables]
  rw [ofTomlText?, toTomlText_eq, parse?_tables config.tables hnames he]
  exact ofToml?_tables h

end Config

section Sizes

theorem lt_of_natural? {value : Toml} {n : Nat} (h : natural? value = some n) :
    n < Nat.pow 2 64 := by
  unfold natural? at h
  split at h
  · split at h
    next hrange =>
      rw [← Option.some.inj h]
      simp only [Bool.and_eq_true, decide_eq_true_eq] at hrange
      exact hrange.2
    · exact absurd h (by simp)
  · exact absurd h (by simp)

theorem Section.of_get {α : Type} (p : α → Prop) {settings : Section} {name : String}
    {position : Nat} {decode : Toml → Option α} {default a : α}
    (h : settings.get name position decode default = some a)
    (hd : ∀ value a, decode value = some a → p a) (hp : p default) : p a := by
  unfold get at h
  split at h
  · exact hd _ a h
  · rwa [← Option.some.inj h]

theorem GeneratorConfig.indent_lt {value : Toml} {config : GeneratorConfig}
    (h : ofToml? value = some config) : config.indent < Nat.pow 2 64 := by
  simp only [ofToml?, Option.bind_eq_bind, Option.bind_eq_some_iff] at h
  obtain ⟨settings, -, _, -, _, -, _, -, indent, hindent, _, -, hconfig⟩ := h
  rw [← Option.some.inj hconfig]
  exact Section.of_get (· < Nat.pow 2 64) hindent (fun _ _ => lt_of_natural?) (by decide)

theorem ScanConfig.maxFileSize_lt {value : Toml} {config : ScanConfig}
    (h : ofToml? value = some config) : config.maxFileSize < Nat.pow 2 64 := by
  simp only [ofToml?, Option.bind_eq_bind, Option.bind_eq_some_iff] at h
  obtain ⟨settings, -, _, -, size, hsize, _, -, _, -, _, -, hconfig⟩ := h
  rw [← Option.some.inj hconfig]
  exact Section.of_get (· < Nat.pow 2 64) hsize (fun _ _ => lt_of_natural?) (by decide)

namespace Config

variable {config : Config} {surroundings : Surroundings}

theorem isSized_of_ofToml? {value : Toml} (h : ofToml? value = some config) : config.IsSized := by
  simp only [ofToml?, Option.bind_eq_bind, Option.bind_eq_some_iff] at h
  obtain ⟨settings, -, generator, hgenerator, scan, hscan, _, -, _, -, hconfig⟩ := h
  rw [← Option.some.inj hconfig]
  constructor
  · exact Section.of_get (·.indent < Nat.pow 2 64) hgenerator (fun _ _ => GeneratorConfig.indent_lt)
      (by decide)
  · exact Section.of_get (·.maxFileSize < Nat.pow 2 64) hscan (fun _ _ => ScanConfig.maxFileSize_lt)
      (by decide)

theorem isSized_of_loadFile {path : String} (h : loadFile surroundings path = .ok config) :
    config.IsSized := by
  unfold loadFile at h
  split at h
  · exact absurd h (by simp)
  split at h
  · exact absurd h (by simp)
  next hread =>
    obtain ⟨value, -, hvalue⟩ := Option.bind_eq_some_iff.mp hread
    exact Except.ok.inj h ▸ isSized_of_ofToml? hvalue

theorem isSized_of_loadFor {root : String} (h : loadFor surroundings root = .ok config) :
    config.IsSized := by
  unfold loadFor at h
  split at h
  · exact isSized_of_loadFile h
  · exact isSized_of_loadFile h
  · exact Except.ok.inj h ▸ ⟨by decide, by decide⟩

end Config
end Sizes

namespace Config

variable {config : Config} {surroundings : Surroundings} {ending : String}

theorem loadFile_of_readText? {path : String} (h : config.IsSized)
    (he : ending = "" ∨ ending = "\n")
    (hr : surroundings.files.readText? (surroundings.locate path) =
      some (config.toTomlText ++ ending)) : loadFile surroundings path = .ok config := by
  unfold loadFile
  rw [hr]
  dsimp only
  rw [ofTomlText?_toTomlText h he]

theorem loadFor_of_write? {root : String} {written : FileSystem} (h : config.IsSized)
    (he : ending = "" ∨ ending = "\n") (hc : surroundings.files.Closed)
    (hw : surroundings.files.write? (surroundings.locate (projectPath root))
      (config.toTomlText ++ ending) = some written) :
    loadFor { surroundings with files := written } root = .ok config := by
  have hread : written.readText?
      (Surroundings.locate { surroundings with files := written } (projectPath root)) =
        some (config.toTomlText ++ ending) := hc.readText?_write hw
  have hsource : sourceFor { surroundings with files := written } root =
      .project (projectPath root) := by
    have hthere : written.isThere
        (Surroundings.locate { surroundings with files := written } (projectPath root)) = true := by
      rw [FileSystem.isThere, FileSystem.entry?_of_readText? hread]
      rfl
    unfold sourceFor
    dsimp only
    rw [if_pos hthere]
  unfold loadFor
  rw [hsource]
  exact loadFile_of_readText? h he hread

theorem output_configShow {path : Option String}
    (h : loadFor surroundings ((Command.configShow path).rootIn surroundings) = .ok config) :
    ((Command.configShow path).run surroundings).output =
      printed ((config.showLines
        (sourceFor surroundings ((Command.configShow path).rootIn surroundings))
        ((Command.configShow path).rootIn surroundings)).take 4) ++ config.toTomlText ++ "\n" := by
  delta Command.run
  rw [h]
  simp only [Command.runWith, Command.succeed, showLines, printed, List.take, List.map,
    String.join_cons, String.join_nil, String.append_empty, String.append_assoc]

/-- **Settings survive being shown.** A file that holds them as TOML, with or without a line break
after it, gives them again, and to save what is shown as the project's file changes no setting. -/
theorem toml_roundtrip (config : Config) (surroundings : Surroundings) (ending : String)
    (hending : ending = "" ∨ ending = "\n") :
    (config.IsSized → ∀ path, surroundings.files.readText? (surroundings.locate path) =
      some (config.toTomlText ++ ending) → loadFile surroundings path = .ok config) ∧
    ∀ path : Option String,
      let root := (Command.configShow path).rootIn surroundings
      loadFor surroundings root = .ok config →
      ((Command.configShow path).run surroundings).output =
        printed ((config.showLines (sourceFor surroundings root) root).take 4) ++
          config.toTomlText ++ "\n" ∧
      ∀ written, surroundings.files.Closed →
        surroundings.files.write? (surroundings.locate (projectPath root))
          (config.toTomlText ++ ending) = some written →
        loadFor { surroundings with files := written } root = .ok config := by
  refine ⟨fun hsized path hread => loadFile_of_readText? hsized hending hread, ?_⟩
  intro path root hload
  refine ⟨output_configShow hload, fun written hclosed hwrite => ?_⟩
  exact loadFor_of_write? (isSized_of_loadFor hload) hending hclosed hwrite

def quotedSample : Config :=
  { generator :=
      { runtimeNamespace := "\nit's \"\"\"", endpointManager := "say \"hi\"",
        manipulatorType := "'''\\\x01\"\"\"\n", indent := 18446744073709551615, header := false }
    scan := { extensions := ["c's"], maxFileSize := 0, typeTables := ["a\\b", "'\"\t\x7f"] }
    output := { directory := "\r\nout", prune := false }
    log := { level := "" } }

def savedSample (text : String) : Surroundings :=
  { files := ⟨[(["w"], .directory), (["w", "saved.toml"], .file (.text text))]⟩
    directory := ["w"] }

theorem toml_roundtrip_quoted :
    loadFile (savedSample quotedSample.toTomlText) "saved.toml" = .ok quotedSample ∧
    ∃ written, (savedSample "").files.write? ["w", ".hookgen.toml"]
        (({} : Config).toTomlText ++ "\n") = some written ∧
      loadFor { savedSample "" with files := written } "/w" = .ok {} := by
  obtain ⟨hfile, -⟩ := toml_roundtrip quotedSample (savedSample quotedSample.toTomlText) ""
    (Or.inl rfl)
  obtain ⟨-, hproject⟩ := toml_roundtrip {} (savedSample "") "\n" (Or.inr rfl)
  have hread : ∀ text, (savedSample text).files.readText?
      ((savedSample text).locate "saved.toml") = some (text ++ "") := by
    intro text
    rw [String.append_empty]
    rfl
  have hwrite : ∃ written, (savedSample "").files.write? ["w", ".hookgen.toml"]
      (({} : Config).toTomlText ++ "\n") = some written := ⟨_, rfl⟩
  obtain ⟨written, hwritten⟩ := hwrite
  refine ⟨hfile ⟨by decide, by decide⟩ "saved.toml" (hread _), written, hwritten, ?_⟩
  have hdefault : loadFor (savedSample "")
      ((Command.configShow none).rootIn (savedSample "")) = .ok {} :=
    toOption_eq_some_iff.mp (by decide +kernel)
  exact (hproject none hdefault).2 written (by decide +kernel) hwritten

end Config

end HookEvents
