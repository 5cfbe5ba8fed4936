import HookEvents.CSharp.Session
import HookEvents.Generation.Basic
import HookEvents.TypeText.Qualify

namespace HookEvents

structure Program where
  references : HookReferences := {}
  types : TypeTable := {}
  deriving DecidableEq, Repr, Inhabited

namespace Program

/-- What the sources say together, in their order. Type names are qualified once all the types of
the sources are known. -/
def ofAnalyses (analyses : List CSharp.Analysis) : Program :=
  { references := analyses.foldl (fun refs analysis => refs.merge analysis.references)
      (HookReferences.ofList [])
    types :=
      (analyses.foldl (fun table analysis => table.insertAll analysis.types)
        (TypeTable.ofList [])).qualifyTypes }

def ofSources (sources : List String) : Program := ofAnalyses (sources.map CSharp.analyze)

def addTypes (program : Program) (symbols : List TypeSymbol) : Program :=
  { program with types := program.types.insertAll symbols }

def addTable (program : Program) (table : TypeTable) : Program :=
  { program with types := program.types.merge table }

def addReferences (program : Program) (texts : List String) : Program :=
  { program with references := program.references.insertAll (texts.filterMap HookReference.parse) }

def model (program : Program) : Model := program.types.model

def generate (program : Program) (config : GeneratorConfig) : Generation :=
  HookEvents.generate program.model config program.references

end Program
end HookEvents
