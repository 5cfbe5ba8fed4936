import HookEvents.Symbol.Basic

/-!
Tables of types. Several declarations of one qualified name make one entry.
-/
namespace HookEvents

namespace TypeSymbol

def addUsings (known new : List String) : List String :=
  new.foldl (fun known using' => if known.contains using' then known else known ++ [using']) known

/-- A further declaration of the same type: its members follow those known, its new directives are
added, and its type parameters count if there were none. -/
def absorb (symbol other : TypeSymbol) : TypeSymbol :=
  { symbol with
    members := symbol.members ++ other.members
    usings := addUsings symbol.usings other.usings
    typeParameters :=
      if symbol.typeParameters.isEmpty then other.typeParameters else symbol.typeParameters }

end TypeSymbol

theorem lookup_zipIdx_eq_none {κ : Type} [BEq κ] [LawfulBEq κ] {keys : List κ} {key : κ} :
    keys.zipIdx.lookup key = none ↔ key ∉ keys := by
  have hmem : key ∈ keys ↔ key ∈ keys.zipIdx.map Prod.fst := by rw [List.zipIdx_map_fst]
  rw [hmem, List.lookup_eq_none_iff]
  simp only [bne_iff_ne, ne_eq, List.mem_map, not_exists, not_and]
  exact ⟨fun h entry he hn => h entry he hn.symm, fun h entry he hn => h entry he hn.symm⟩

/-- Types in the order of their first declaration, and the position of each under its name. -/
structure TypeTable where
  types : List TypeSymbol := []
  index : List (String × Nat) := []
  index_eq : index = (types.map (·.qualifiedName)).zipIdx := by rfl
  names_nodup : (types.map (·.qualifiedName)).Nodup := by exact List.nodup_nil
  deriving DecidableEq, Repr

namespace TypeTable

instance : Inhabited TypeTable := ⟨{}⟩

def names (table : TypeTable) : List String := table.types.map (·.qualifiedName)

theorem names_modify (types : List TypeSymbol) (slot : Nat) (symbol : TypeSymbol) :
    (types.modify slot (·.absorb symbol)).map (·.qualifiedName) = types.map (·.qualifiedName) := by
  apply List.ext_getElem?
  intro i
  rw [List.getElem?_map, List.getElem?_map, List.getElem?_modify]
  cases types[i]? with
  | none => rfl
  | some entry =>
    by_cases hi : slot = i
    · simp only [if_pos hi]
      rfl
    · simp only [if_neg hi]
      rfl

theorem index_lookup_eq_none {table : TypeTable} {name : String} :
    table.index.lookup name = none ↔ name ∉ table.names := by
  rw [table.index_eq]
  exact lookup_zipIdx_eq_none

def absorbAt (table : TypeTable) (slot : Nat) (symbol : TypeSymbol) : TypeTable where
  types := table.types.modify slot (·.absorb symbol)
  index := table.index
  index_eq := by rw [names_modify, table.index_eq]
  names_nodup := by rw [names_modify]; exact table.names_nodup

def append (table : TypeTable) (symbol : TypeSymbol)
    (h : table.index.lookup symbol.qualifiedName = none) : TypeTable where
  types := table.types ++ [symbol]
  index := table.index ++ [(symbol.qualifiedName, table.types.length)]
  index_eq := by
    rw [List.map_append, List.zipIdx_append, ← table.index_eq, List.length_map, Nat.zero_add]
    rfl
  names_nodup := by
    have hnot := index_lookup_eq_none.mp h
    rw [List.map_append, List.nodup_append]
    refine ⟨table.names_nodup, by simp, ?_⟩
    rintro name hname other hother rfl
    obtain rfl : name = symbol.qualifiedName := by simpa using hother
    exact hnot hname

def insert (table : TypeTable) (symbol : TypeSymbol) : TypeTable :=
  match h : table.index.lookup symbol.qualifiedName with
  | some slot => table.absorbAt slot symbol
  | none => table.append symbol h

def insertAll (table : TypeTable) (symbols : List TypeSymbol) : TypeTable :=
  symbols.foldl insert table

def ofList (symbols : List TypeSymbol) : TypeTable := insertAll {} symbols

def merge (table other : TypeTable) : TypeTable := table.insertAll other.types

def get? (table : TypeTable) (name : String) : Option TypeSymbol :=
  (table.index.lookup name).bind fun slot => table.types[slot]?

def contains (table : TypeTable) (name : String) : Bool := (table.index.lookup name).isSome

def size (table : TypeTable) : Nat := table.types.length

def methodCount (table : TypeTable) : Nat :=
  table.types.foldl (fun count symbol => count + symbol.methods.length) 0

end TypeTable
end HookEvents
