import HookEvents.Proofs.Command.Export
import HookEvents.Proofs.Generation.Alike
import HookEvents.Proofs.Generation.Merged
import HookEvents.Proofs.Workspace.Tables

namespace HookEvents

namespace TypeSymbol

/-- The directives and method names of `new` are known, and type parameters if it has some. -/
structure Covers (known new : TypeSymbol) : Prop where
  usings : ∀ target ∈ new.usings, target ∈ known.usings
  methods : ∀ method ∈ new.methods, ∃ own ∈ known.methods, own.name = method.name
  typeParameters : new.typeParameters ≠ [] → known.typeParameters ≠ []

theorem addUsings_of_forall_mem {known new : List String} (h : ∀ target ∈ new, target ∈ known) :
    addUsings known new = known := by
  have hnone : new.filter (· ∉ known) = [] := by
    apply List.filter_eq_nil_iff.mpr
    intro target ht
    simpa using h target ht
  rw [addUsings_eq, hnone, List.eraseDups_nil, List.append_nil]

theorem Covers.absorb_bare {known new : TypeSymbol} (h : known.Covers new) :
    (known.absorb new).bare = known.bare := by
  have hparameters : (known.absorb new).typeParameters = known.typeParameters := by
    by_cases hk : known.typeParameters = []
    · have hnew : new.typeParameters = [] := by_contra fun hn => h.typeParameters hn hk
      simp [absorb, hk, hnew]
    · simp [absorb, hk]
  have husings : (known.absorb new).usings = known.usings := addUsings_of_forall_mem h.usings
  rw [bare, bare, hparameters, husings]
  rfl

theorem Covers.methodNamed_eq_none {known new : TypeSymbol} (h : known.Covers new) {name : String}
    (hn : known.methodNamed name = none) : new.methodNamed name = none := by
  apply List.find?_eq_none.mpr
  intro method hm hname
  obtain ⟨own, ho, hsame⟩ := h.methods method hm
  exact List.find?_eq_none.mp hn own ho (by simpa [hsame] using hname)

theorem Covers.absorb_alike {known new : TypeSymbol} (h : known.Covers new) :
    (known.absorb new).Alike known where
  bare := h.absorb_bare
  methodNamed name := by
    rw [absorb_methodNamed]
    cases hk : known.methodNamed name with
    | none => rw [h.methodNamed_eq_none hk, Option.or_none]
    | some method => rw [Option.some_or]

theorem covers_refl (symbol : TypeSymbol) : symbol.Covers symbol :=
  ⟨fun _ h => h, fun method h => ⟨method, h, rfl⟩, fun h => h⟩

theorem covers_reread (symbol : TypeSymbol) : symbol.Covers symbol.reread := by
  refine ⟨fun _ h => h, ?_, fun h => h⟩
  intro method hm
  obtain ⟨member, hmember, hmethod⟩ := List.mem_filterMap.mp hm
  obtain ⟨own, ho, rfl⟩ := List.mem_map.mp hmember
  cases own with
  | method m =>
    obtain rfl : m.reread = method := Option.some.inj hmethod
    exact ⟨m, List.mem_filterMap.mpr ⟨.method m, ho, rfl⟩, rfl⟩
  | field _ | property _ | nestedType _ =>
    exact absurd hmethod (by simp [Member.reread, Member.method?])

end TypeSymbol

namespace TypeTable

def Covers (table other : TypeTable) : Prop :=
  ∀ new ∈ other.types, ∃ known, table.get? new.qualifiedName = some known ∧ known.Covers new

theorem Covers.alike_merge {table other : TypeTable} (h : table.Covers other) :
    (table.merge other).model.Alike table.model := by
  intro name
  change Option.Rel _ ((table.merge other).get? name) (table.get? name)
  cases hn : other.get? name with
  | none =>
    rw [get?_merge, hn]
    cases table.get? name with
    | none => exact .none
    | some known => exact .some ⟨rfl, fun _ => rfl⟩
  | some new =>
    obtain ⟨known, hk, hcovers⟩ := h new (mem_types_of_get? hn)
    rw [qualifiedName_of_get? hn] at hk
    rw [get?_merge_of_some other hk, hk, hn]
    exact .some hcovers.absorb_alike

theorem covers_self (table : TypeTable) : table.Covers table :=
  fun symbol hs => ⟨symbol, get?_qualifiedName hs, symbol.covers_refl⟩

theorem covers_reread (table : TypeTable) :
    table.Covers (ofList (table.types.map TypeSymbol.reread)) := by
  have hnames : (table.types.map TypeSymbol.reread).map (·.qualifiedName) = table.names := by
    rw [List.map_map]
    rfl
  intro new hn
  rw [types_ofList (hnames ▸ table.names_nodup)] at hn
  obtain ⟨symbol, hs, rfl⟩ := List.mem_map.mp hn
  exact ⟨symbol, get?_qualifiedName hs, symbol.covers_reread⟩

end TypeTable

theorem generate_merge_known (table other : TypeTable) :
    (table.Covers other → ∀ config refs,
      generate (table.merge other).model config refs = generate table.model config refs) ∧
    (∀ config refs,
      generate (table.merge table).model config refs = generate table.model config refs) ∧
    (∃ loaded, TypeTable.ofJsonText? table.toJsonText = some loaded ∧ ∀ config refs,
      generate (table.merge loaded).model config refs = generate table.model config refs) ∧
    ∀ (surroundings : Surroundings) (options : TypesOptions) (path : String),
      surroundings.files.Closed → options.exportTo = some path →
      (Command.run surroundings (.types options)).exit = 0 →
      ∃ config project again,
        Config.loadFor surroundings ((Command.types options).rootIn surroundings) = .ok config ∧
        (Project.analyze surroundings ((Command.types options).rootIn surroundings) config
          []).result = .ok project ∧
        Project.addTables
          { surroundings with files := (Command.run surroundings (.types options)).files }
          project.program [path] = .ok again ∧
        ∀ generator, again.generate generator = project.program.generate generator := by
  refine ⟨fun h => h.alike_merge.generate_eq, table.covers_self.alike_merge.generate_eq,
    ⟨_, table.ofJsonText?_reread, table.covers_reread.alike_merge.generate_eq⟩, ?_⟩
  intro surroundings options path hc hp hexit
  obtain ⟨config, project, hconfig, hproject, hwrite⟩ := Command.exists_write_of_export hp hexit
  refine ⟨config, project, _, hconfig, hproject,
    addTables_cons_iff.mpr ⟨_, loadTable_write? hc hwrite, rfl⟩, ?_⟩
  intro generator
  exact project.program.types.covers_reread.alike_merge.generate_eq generator _

theorem generate_merge_known_void :
    let known : TypeSymbol :=
      { name := "Player", members := [.method { name := "Hurt", parameters := ["int"] }],
        usings := ["System", "System"] }
    let new : TypeSymbol :=
      { name := "Player", members := [.method { name := "Hurt" }, .field "speed"],
        usings := ["System"] }
    (∀ config refs, generate ((TypeTable.ofList [known]).merge (.ofList [new])).model config refs =
      generate (TypeTable.ofList [known]).model config refs) ∧
    ∃ (config : Config) (project : Project) (again : Program),
      (Project.analyze .voidSample "/p" config []).result = .ok project ∧
      Project.addTables { Surroundings.voidSample with
        files := (Command.run .voidSample (.types { exportTo := some "t.json" })).files }
        project.program ["t.json"] = .ok again ∧
      ∀ generator, again.generate generator = project.program.generate generator := by
  intro known new
  have hcovers : (TypeTable.ofList [known]).Covers (.ofList [new]) := by
    have htypes : (TypeTable.ofList [new]).types = [new] := by decide +kernel
    intro symbol hs
    rw [htypes] at hs
    obtain rfl := List.mem_singleton.mp hs
    exact ⟨known, by decide +kernel, by decide +kernel, by decide +kernel, fun h => absurd rfl h⟩
  obtain ⟨hmerge, -, -, hexport⟩ := generate_merge_known (.ofList [known]) (.ofList [new])
  obtain ⟨config, project, again, -, hproject, hagain, hsame⟩ := hexport .voidSample
    { exportTo := some "t.json" } "t.json" (by decide +kernel) rfl (by decide +kernel)
  exact ⟨hmerge hcovers, config, project, again, hproject, hagain, hsame⟩

end HookEvents
