import HookEvents.Proofs.Symbol.Table
import HookEvents.TypeText.Qualify

namespace HookEvents

def TypeSymbol.mapTypes (f : String → String) (symbol : TypeSymbol) : TypeSymbol :=
  { symbol with members := symbol.members.map (Member.mapTypes f) }

theorem Member.method?_mapTypes (f : String → String) (member : Member) :
    (member.mapTypes f).method? = member.method?.map (Method.mapTypes f) := by
  cases member <;> rfl

theorem TypeSymbol.methods_mapTypes (f : String → String) (symbol : TypeSymbol) :
    (symbol.mapTypes f).methods = symbol.methods.map (Method.mapTypes f) := by
  simp only [methods, mapTypes, List.filterMap_map, List.map_filterMap, Function.comp_def,
    Member.method?_mapTypes]

def TypeTable.qualifyTextIn (table : TypeTable) (symbol : TypeSymbol) : String → String :=
  TypeText.qualifyText (table.lookup (enclosingScopes symbol.qualifiedName))

theorem TypeSymbol.qualifyTypes_eq (table : TypeTable) (symbol : TypeSymbol) :
    symbol.qualifyTypes table = symbol.mapTypes (table.qualifyTextIn symbol) := rfl

namespace TypeTable

theorem types_qualifyTypes (table : TypeTable) :
    table.qualifyTypes.types = table.types.map (TypeSymbol.qualifyTypes table) := by
  have hnames : (table.types.map (TypeSymbol.qualifyTypes table)).map (·.qualifiedName) =
      table.names := by
    rw [List.map_map]
    rfl
  apply types_ofList
  rw [hnames]
  exact table.names_nodup

theorem names_qualifyTypes (table : TypeTable) : table.qualifyTypes.names = table.names := by
  rw [names, types_qualifyTypes, List.map_map]
  rfl

theorem get?_qualifyTypes (table : TypeTable) (name : String) :
    table.qualifyTypes.get? name = (table.get? name).map (TypeSymbol.qualifyTypes table) := by
  rw [get?_eq_find?, get?_eq_find?, types_qualifyTypes, Keyed.get?, List.find?_map]
  rfl

theorem lookup_qualifyTypes (table : TypeTable) (scopes : List String) :
    table.qualifyTypes.lookup scopes = table.lookup scopes := by
  have hentry (name : String) (arity : Nat) :
      (table.qualifyTypes.get? name).any (fun symbol => symbol.typeParameters.length = arity) =
        (table.get? name).any fun symbol => symbol.typeParameters.length = arity := by
    rw [get?_qualifyTypes, Option.any_map]
    rfl
  funext path arity
  simp only [lookup, hentry]

theorem qualifyTextIn_qualifyTypes (table : TypeTable) (symbol : TypeSymbol) :
    table.qualifyTypes.qualifyTextIn symbol = table.qualifyTextIn symbol := by
  rw [qualifyTextIn, lookup_qualifyTypes, qualifyTextIn]

end TypeTable

end HookEvents
