import HookEvents.Proofs.Command.Frame
import HookEvents.Proofs.Config.Roundtrip
import HookEvents.Proofs.Toml.Lines

/-!
Writing a new settings file over an old one. The template gives the defaults, but the old file is
read before the command starts, so only a file that still gives settings can be replaced.
-/
namespace HookEvents

open FileSystem Text

namespace Config

open Toml

def templateRows : List Row :=
  (({} : Config).tables.flatMap Table.rows).filter fun row => row.text ≠ "type_tables = []"

theorem filter_templateLines :
    templateLines.filter (!isFiller ·) = templateRows.map Row.text := by
  decide +kernel

theorem ofToml?_templateRows :
    ((templateRows.foldlM Row.next? {}).bind Document.finish).bind ofToml? = some {} := by
  decide +kernel

theorem toList_template : template.toList = lineChars templateLines := by
  simp [template, lineChars, String.toList_join, List.flatMap_map]

theorem ofTomlText?_template : ofTomlText? template = some {} := by
  obtain ⟨value, hvalue, hconfig⟩ := Option.bind_eq_some_iff.mp ofToml?_templateRows
  obtain ⟨next, hrows, hfinish⟩ := Option.bind_eq_some_iff.mp hvalue
  obtain ⟨root, hclose, hroot⟩ := Option.bind_eq_some_iff.mp hfinish
  have hreads : Toml.Reads {} template.toList next := by
    rw [toList_template]
    exact reads_lines filter_templateLines hrows
  have hfirst : ∀ c ∈ template.toList.head?, c.toNat ≠ 0xFEFF := by
    rw [toList_template]
    intro c hc
    obtain rfl : '#' = c := Option.some.inj hc
    decide
  rw [ofTomlText?, parse?_of_reads hfirst hreads hclose, ← hconfig, ← Option.some.inj hroot]
  rfl

end Config

namespace FileSystem

variable {files : FileSystem} {location : List FileName} {content : FileContent}

theorem read?_eq_some_iff : files.read? location = some content ↔
    ∃ place, files.resolve? location = some place ∧ files.get? place = some (.file content) := by
  rw [← Option.bind_eq_some_iff]
  change _ ↔ FileSystem.entry? files location = some (.file content)
  unfold read?
  split
  next hentry => simp [hentry]
  next hnot =>
    constructor
    · intro h
      exact absurd h (by simp)
    · intro h
      exact absurd h (hnot content)

theorem isThere_of_read? (h : files.read? location = some content) :
    files.isThere location = true := by
  rw [isThere, FileSystem.entry?, Option.bind_eq_some_iff.mpr (read?_eq_some_iff.mp h)]
  rfl

structure Overwritten (files after : FileSystem) (location : List FileName) (text : String) :
    Prop where
  read : after.read? location = some (.text text)
  frame : ∃ place, files.resolve? location = some place ∧
    ∀ other, other ≠ place → after.get? other = files.get? other

theorem exists_write?_of_read? (h : files.read? location = some content) (text : String) :
    ∃ after, files.write? location text = some after ∧
      Overwritten files after location text := by
  obtain ⟨place, hresolve, hget⟩ := read?_eq_some_iff.mp h
  have hdirectory : files.get? place ≠ some .directory := by simp [hget]
  have hlink : ∀ target, files.get? place ≠ some (.link target) := by simp [hget]
  have hne : place ≠ [] := fun hn => hdirectory (hn ▸ get?_nil)
  have hplace : files.writePlace? location = some place :=
    writePlace?_eq_some.mpr ⟨hresolve, hdirectory⟩
  refine ⟨files.put place (.file (.text text)), ?_, ?_, place, hresolve, ?_⟩
  · rw [write?_eq, hplace]
    rfl
  · apply read?_eq_some_iff.mpr
    exact ⟨place, walk_put hresolve hne hdirectory hlink _, by rw [get?_put hne, if_pos rfl]⟩
  · intro other ho
    rw [get?_put hne, if_neg ho]

end FileSystem

namespace Config

variable {surroundings : Surroundings} {root : String} {content : FileContent}

def Readable (content : FileContent) : Prop :=
  ∃ text config, content = .text text ∧ ofTomlText? text = some config

theorem isSome_ofTomlText?_iff :
    (content.text?.bind ofTomlText?).isSome = true ↔ Readable content := by
  cases content with
  | text text => simp [Readable, FileContent.text?, Option.isSome_iff_exists]
  | binary bytes => simp [Readable, FileContent.text?]

instance : Decidable (Readable content) := decidable_of_iff _ isSome_ofTomlText?_iff

theorem loadFor_of_read?
    (h : surroundings.files.read? (surroundings.locate (projectPath root)) = some content) :
    loadFor surroundings root = loadFile surroundings (projectPath root) := by
  have hsource : sourceFor surroundings root = .project (projectPath root) := by
    unfold sourceFor
    dsimp only
    rw [if_pos (isThere_of_read? h)]
  unfold loadFor
  rw [hsource]

theorem loadFor_eq_ok {text : String} {config : Config}
    (h : surroundings.files.read? (surroundings.locate (projectPath root)) = some (.text text))
    (hc : ofTomlText? text = some config) : loadFor surroundings root = .ok config := by
  rw [loadFor_of_read? h]
  unfold loadFile
  rw [readText?, h]
  dsimp only [Option.bind, FileContent.text?]
  rw [hc]

theorem exists_loadFor_eq_error
    (h : surroundings.files.read? (surroundings.locate (projectPath root)) = some content)
    (hc : ¬Readable content) : ∃ fault, loadFor surroundings root = .error fault := by
  rw [loadFor_of_read? h]
  unfold loadFile
  rw [readText?, h]
  cases content with
  | binary bytes => exact ⟨_, rfl⟩
  | text text =>
    dsimp only [Option.bind, FileContent.text?]
    cases hconfig : ofTomlText? text with
    | none => exact ⟨_, rfl⟩
    | some config => exact absurd ⟨text, config, rfl, hconfig⟩ hc

end Config

namespace Command

variable {surroundings : Surroundings} {options : ConfigInitOptions} {content : FileContent}

theorem run_of_error {command : Command} {fault : ConfigFault}
    (h : Config.loadFor surroundings (command.rootIn surroundings) = .error fault) :
    run surroundings command = fail surroundings.files [] "Failed to load configuration" := by
  delta run
  rw [h]

theorem run_configInit_of_ok {config : Config}
    (h : Config.loadFor surroundings ((configInit options).rootIn surroundings) = .ok config) :
    ∃ log, run surroundings (.configInit options) =
      { runConfigInit surroundings ((configInit options).rootIn surroundings) options.force with
        log } := by
  delta run
  rw [h]
  exact ⟨_, rfl⟩

theorem runConfigInit_kept {root : String}
    (h : surroundings.files.read? (surroundings.locate (Config.projectPath root)) =
      some content) :
    runConfigInit surroundings root false = fail surroundings.files []
      ("Config file already exists: " ++ Config.projectPath root ++ " (use --force to overwrite)") := by
  unfold runConfigInit
  dsimp only
  rw [isThere_of_read? h]
  rfl

theorem runConfigInit_forced {root : String} {after : FileSystem}
    (h : surroundings.files.write? (surroundings.locate (Config.projectPath root))
      Config.template = some after) :
    runConfigInit surroundings root true = succeed after []
      ["Created project config: " ++ Config.projectPath root,
        "Edit the file to customize settings."] := by
  unfold runConfigInit
  dsimp only
  rw [Bool.not_true, Bool.and_false, if_neg (by simp), h]

end Command

structure Surroundings.Reset (surroundings : Surroundings) (root : String) (after : FileSystem) :
    Prop where
  overwritten : Overwritten surroundings.files after
    (surroundings.locate (Config.projectPath root)) Config.template
  defaults : Config.loadFor { surroundings with files := after } root = .ok {}

theorem Surroundings.exists_write?_reset {surroundings : Surroundings} {root : String}
    {content : FileContent}
    (h : surroundings.files.read? (surroundings.locate (Config.projectPath root)) =
      some content) :
    ∃ after, surroundings.files.write? (surroundings.locate (Config.projectPath root))
      Config.template = some after ∧ surroundings.Reset root after := by
  obtain ⟨after, hwrite, hover⟩ := exists_write?_of_read? h Config.template
  have hread : after.read? (Surroundings.locate { surroundings with files := after }
      (Config.projectPath root)) = some (.text Config.template) := hover.read
  exact ⟨after, hwrite, hover, Config.loadFor_eq_ok hread Config.ofTomlText?_template⟩

/-- **An existing settings file is replaced if and only if the command is forced and the file still
gives settings.** It then holds the template, and the defaults count. In every other case the
command fails and changes nothing, forced or not. -/
theorem init_resets_iff (surroundings : Surroundings) (arguments : List String)
    (options : ConfigInitOptions) (content : FileContent)
    (hparse : Arguments.parse arguments = .run (.configInit options)) :
    let root := (Command.configInit options).rootIn surroundings
    let outcome := runArguments surroundings arguments
    surroundings.files.read? (surroundings.locate (Config.projectPath root)) = some content →
    (outcome.exit = 0 ↔ options.force = true ∧ Config.Readable content) ∧
    (outcome.exit = 0 → surroundings.Reset root outcome.files) ∧
    (outcome.exit ≠ 0 → outcome.exit = 1 ∧ outcome.files = surroundings.files ∧
      outcome.message = some (if Config.Readable content then
        "Config file already exists: " ++ Config.projectPath root ++ " (use --force to overwrite)"
        else "Failed to load configuration")) := by
  intro root outcome hread
  have hrun : outcome = (Command.configInit options).run surroundings := by
    simp only [outcome, runArguments, hparse]
  -- settings are loaded before the command is looked at, so the content decides before the force
  by_cases hreadable : Config.Readable content
  · obtain ⟨text, config, rfl, hconfig⟩ := hreadable
    have hreadable : Config.Readable (.text text) := ⟨text, config, rfl, hconfig⟩
    obtain ⟨log, hlog⟩ := Command.run_configInit_of_ok (Config.loadFor_eq_ok hread hconfig)
    rw [← hrun] at hlog
    cases hforce : options.force with
    | false =>
      rw [hforce, Command.runConfigInit_kept hread] at hlog
      rw [hlog, if_pos hreadable]
      exact ⟨⟨fun h => absurd h Nat.one_ne_zero, fun h => absurd h.1 (by decide)⟩,
        fun h => absurd h Nat.one_ne_zero, fun _ => ⟨rfl, rfl, rfl⟩⟩
    | true =>
      obtain ⟨after, hwrite, hreset⟩ := Surroundings.exists_write?_reset hread
      rw [hforce, Command.runConfigInit_forced hwrite] at hlog
      rw [hlog]
      exact ⟨⟨fun _ => ⟨rfl, hreadable⟩, fun _ => rfl⟩, fun _ => hreset, fun h => absurd rfl h⟩
  · obtain ⟨fault, hfault⟩ := Config.exists_loadFor_eq_error hread hreadable
    rw [hrun, Command.run_of_error hfault, if_neg hreadable]
    exact ⟨⟨fun h => absurd h Nat.one_ne_zero, fun h => absurd h.2 hreadable⟩,
      fun h => absurd h Nat.one_ne_zero, fun _ => ⟨rfl, rfl, rfl⟩⟩

def Surroundings.settingsSample (text : String) : Surroundings :=
  { files := ⟨[(["w"], .directory), (["w", ".hookgen.toml"], .file (.text text))]⟩
    directory := ["w"] }

theorem init_resets_iff_broken :
    Surroundings.Reset (.settingsSample "") "/w"
      (runArguments (.settingsSample "") ["config", "init", "--force"]).files ∧
    (runArguments (.settingsSample "[broken") ["config", "init", "--force"]).files =
      (Surroundings.settingsSample "[broken").files := by
  have hparse : Arguments.parse ["config", "init", "--force"] =
      .run (.configInit { force := true }) := by decide +kernel
  obtain ⟨hempty, hreset, -⟩ := init_resets_iff (.settingsSample "") _ _ (.text "") hparse
    (by decide +kernel)
  obtain ⟨hbroken, -, hkept⟩ := init_resets_iff (.settingsSample "[broken") _ _ (.text "[broken")
    hparse (by decide +kernel)
  refine ⟨hreset (hempty.mpr ⟨rfl, by decide +kernel⟩), (hkept fun hexit => ?_).2.1⟩
  exact absurd (hbroken.mp hexit).2 (by decide +kernel)

theorem init_force_refused :
    ¬∀ (surroundings : Surroundings) (arguments : List String) (options : ConfigInitOptions)
      (content : FileContent), Arguments.parse arguments = .run (.configInit options) →
      options.force = true →
      surroundings.files.read? (surroundings.locate (Config.projectPath
        ((Command.configInit options).rootIn surroundings))) = some content →
      (runArguments surroundings arguments).exit = 0 := by
  intro h
  have hexit := h (.settingsSample "[broken") ["config", "init", "--force"] { force := true }
    (.text "[broken") (by decide +kernel) rfl (by decide +kernel)
  exact absurd hexit (by decide +kernel)

end HookEvents
