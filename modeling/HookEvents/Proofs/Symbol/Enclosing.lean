import HookEvents.Proofs.Generation.Resolve
import HookEvents.Proofs.Symbol.ClosedForm
import HookEvents.Proofs.TypeText.Table
import Mathlib.Data.List.Forall2

/-!
Types inside types. Where every nested symbol of a list comes with a symbol for the type around it,
the table made of the list has an entry for each enclosing type of each of its types.
-/
namespace HookEvents

open Text

namespace TypeSymbol

structure Encloses (outer inner : TypeSymbol) : Prop where
  namespaceName_eq : inner.namespaceName = outer.namespaceName
  containingTypes_eq : inner.containingTypes = outer.nestingChain
  mem_members : .nestedType inner.name ∈ outer.members

structure Named (symbol : TypeSymbol) : Prop where
  name_ne : symbol.name ≠ ""
  namespaceName_ne : symbol.namespaceName ≠ some ""

theorem containersFrom_append (outer : String) (front back : List String) :
    containersFrom outer (front ++ back) =
      containersFrom outer front ++ containersFrom (front.foldl qualifyIn outer) back := by
  induction front generalizing outer with
  | nil => rfl
  | cons container front ih => exact congrArg (qualifyIn outer container :: ·) (ih _)

theorem foldl_qualifyIn {front parts : List String} (h : ∀ part ∈ front ++ parts, part ≠ "") :
    parts.foldl qualifyIn (join "." front) = join "." (front ++ parts) := by
  induction parts generalizing front with
  | nil => simp
  | cons part parts ih =>
    have hfront : ∀ other ∈ front, other ≠ "" := fun other ho => h other (by simp [ho])
    rw [List.foldl_cons, ← join_concat front part hfront, ih (by simpa using h)]
    simp

theorem qualifiedName_eq_foldl {symbol : TypeSymbol}
    (h : ∀ part ∈ symbol.namespaceName.toList ++ symbol.nestingChain, part ≠ "") :
    symbol.qualifiedName = symbol.nestingChain.foldl qualifyIn (symbol.namespaceName.getD "") := by
  have hfront : join "." symbol.namespaceName.toList = symbol.namespaceName.getD "" := by
    cases symbol.namespaceName <;> simp [join]
  rw [← hfront, foldl_qualifyIn h, qualifiedName]

theorem Encloses.containerNames_eq {outer inner : TypeSymbol} (h : outer.Encloses inner)
    (hn : ∀ part ∈ outer.namespaceName.toList ++ outer.nestingChain, part ≠ "") :
    inner.containerNames = outer.containerNames ++ [outer.qualifiedName] := by
  rw [containerNames, h.namespaceName_eq, h.containingTypes_eq, nestingChain,
    containersFrom_append, qualifiedName_eq_foldl hn, nestingChain, List.foldl_append]
  rfl

theorem Encloses.nestingChain_tail {outer inner : TypeSymbol} (h : outer.Encloses inner) :
    inner.nestingChain.tail = outer.nestingChain.tail ++ [inner.name] := by
  rw [nestingChain, h.containingTypes_eq, List.tail_append_of_ne_nil]
  simp [nestingChain]

def Rooted (root : TypeSymbol → Prop) (symbols : List TypeSymbol) : Prop :=
  ∀ symbol ∈ symbols, symbol.Named ∧ (root symbol ∨ ∃ outer ∈ symbols, outer.Encloses symbol)

namespace Rooted

theorem nil {root : TypeSymbol → Prop} : Rooted root [] := by simp [Rooted]

theorem imp {root other : TypeSymbol → Prop} {symbols : List TypeSymbol} (h : Rooted root symbols)
    (hr : ∀ symbol, root symbol → other symbol) : Rooted other symbols :=
  fun symbol hs => ⟨(h symbol hs).1, (h symbol hs).2.imp_left (hr symbol)⟩

theorem append {root : TypeSymbol → Prop} {symbols more : List TypeSymbol}
    (h : Rooted root symbols) (hm : Rooted root more) : Rooted root (symbols ++ more) := by
  intro symbol hs
  rcases List.mem_append.mp hs with hs | hs
  · obtain ⟨hn, hroot | ⟨outer, ho, he⟩⟩ := h symbol hs
    · exact ⟨hn, Or.inl hroot⟩
    · exact ⟨hn, Or.inr ⟨outer, List.mem_append_left _ ho, he⟩⟩
  · obtain ⟨hn, hroot | ⟨outer, ho, he⟩⟩ := hm symbol hs
    · exact ⟨hn, Or.inl hroot⟩
    · exact ⟨hn, Or.inr ⟨outer, List.mem_append_right _ ho, he⟩⟩

theorem flatten {root : TypeSymbol → Prop} {lists : List (List TypeSymbol)}
    (h : ∀ symbols ∈ lists, Rooted root symbols) : Rooted root lists.flatten := by
  induction lists with
  | nil => exact nil
  | cons symbols lists ih =>
    exact (h symbols (by simp)).append (ih fun other ho => h other (by simp [ho]))

theorem cons {root : TypeSymbol → Prop} {first : TypeSymbol} {symbols : List TypeSymbol}
    (hn : first.Named) (hr : root first) (h : Rooted first.Encloses symbols) :
    Rooted root (first :: symbols) := by
  intro symbol hs
  rcases List.mem_cons.mp hs with rfl | hs
  · exact ⟨hn, Or.inl hr⟩
  · obtain ⟨hnamed, he | ⟨outer, ho, he⟩⟩ := h symbol hs
    · exact ⟨hnamed, Or.inr ⟨first, by simp, he⟩⟩
    · exact ⟨hnamed, Or.inr ⟨outer, by simp [ho], he⟩⟩

variable {symbols : List TypeSymbol}
  (h : Rooted (fun symbol => symbol.containingTypes = []) symbols)
include h

theorem outside_in {motive : TypeSymbol → Prop}
    (top : ∀ symbol ∈ symbols, symbol.containingTypes = [] → motive symbol)
    (inner : ∀ outer ∈ symbols, ∀ symbol ∈ symbols, outer.Encloses symbol → motive outer →
      motive symbol) :
    ∀ symbol ∈ symbols, motive symbol := by
  intro symbol hs
  -- On the depth, since the type around a symbol is one level further out.
  induction hd : symbol.containingTypes.length generalizing symbol with
  | zero => exact top symbol hs (List.length_eq_zero_iff.mp hd)
  | succ depth ih =>
    rcases (h symbol hs).2 with htop | ⟨outer, ho, he⟩
    · exact top symbol hs htop
    · have hdepth : outer.containingTypes.length = depth := by
        rw [he.containingTypes_eq, nestingChain, List.length_append] at hd
        exact Nat.succ.inj hd
      exact inner outer ho symbol hs he (ih outer ho hdepth)

theorem parts_ne : ∀ symbol ∈ symbols,
    ∀ part ∈ symbol.namespaceName.toList ++ symbol.nestingChain, part ≠ "" := by
  refine h.outside_in ?_ ?_
  · rintro symbol hs htop _ hp rfl
    obtain ⟨hname, hspace⟩ := (h symbol hs).1
    simp only [nestingChain, htop, List.nil_append, List.mem_append, Option.mem_toList,
      List.mem_singleton] at hp
    exact hp.elim hspace fun he => hname he.symm
  · rintro outer _ symbol hs he ih _ hp rfl
    rw [nestingChain, he.namespaceName_eq, he.containingTypes_eq, ← List.append_assoc] at hp
    rcases List.mem_append.mp hp with hp | hp
    · exact ih "" hp rfl
    · exact (h symbol hs).1.name_ne (List.mem_singleton.mp hp).symm

theorem forall₂_containerNames : ∀ symbol ∈ symbols,
    List.Forall₂ (fun name inner => ∃ outer ∈ symbols, outer.qualifiedName = name ∧
      .nestedType inner ∈ outer.members) symbol.containerNames symbol.nestingChain.tail := by
  refine h.outside_in ?_ ?_
  · intro symbol _ htop
    rw [containerNames, nestingChain, htop]
    exact .nil
  · intro outer ho symbol _ he ih
    rw [he.containerNames_eq (h.parts_ne outer ho), he.nestingChain_tail]
    exact List.rel_append ih (.cons ⟨outer, ho, rfl, he.mem_members⟩ .nil)

end Rooted

theorem containerNames_absorbAll (first : TypeSymbol) (rest : List TypeSymbol) :
    (first.absorbAll rest).containerNames = first.containerNames := by
  rw [containerNames, absorbAll_namespaceName, absorbAll_containingTypes, containerNames]

theorem nestingChain_absorbAll (first : TypeSymbol) (rest : List TypeSymbol) :
    (first.absorbAll rest).nestingChain = first.nestingChain := by
  rw [nestingChain, absorbAll_containingTypes, absorbAll_name, nestingChain]

end TypeSymbol

namespace TypeTable

/-- The enclosing types of a symbol have the entries `containers`, and each declares the next. -/
structure Encloses (table : TypeTable) (containers : List TypeSymbol) (symbol : TypeSymbol) :
    Prop where
  entries : symbol.containerNames.map table.get? = containers.map some
  members : List.Forall₂ (fun container inner => .nestedType inner ∈ container.members)
    containers symbol.nestingChain.tail

theorem Built.exists_get?_of_mem {table : TypeTable} {symbols : List TypeSymbol}
    (hb : table.Built symbols) {symbol : TypeSymbol} (h : symbol ∈ symbols) :
    ∃ entry, table.get? symbol.qualifiedName = some entry ∧
      ∀ member ∈ symbol.members, member ∈ entry.members := by
  have hd : symbol ∈ symbols.filter (·.qualifiedName = symbol.qualifiedName) := by simp [h]
  obtain ⟨first, rest, hsplit⟩ := List.exists_cons_of_ne_nil (List.ne_nil_of_mem hd)
  refine ⟨first.absorbAll rest, hb.get?_eq_some_iff.mpr ⟨first, rest, hsplit, rfl⟩, ?_⟩
  intro member hm
  rw [TypeSymbol.absorbAll_members]
  exact List.mem_flatMap.mpr ⟨symbol, hsplit ▸ hd, hm⟩

theorem Built.exists_first {table : TypeTable} {symbols : List TypeSymbol}
    (hb : table.Built symbols) {entry : TypeSymbol} (h : entry ∈ table.types) :
    ∃ first ∈ symbols, entry.containerNames = first.containerNames ∧
      entry.nestingChain = first.nestingChain := by
  obtain ⟨first, rest, hsplit, rfl⟩ := hb.get?_eq_some_iff.mp (get?_qualifiedName h)
  have hd : first ∈ symbols.filter
      (·.qualifiedName = (first.absorbAll rest).qualifiedName) := by simp [hsplit]
  exact ⟨first, (List.mem_filter.mp hd).1, first.containerNames_absorbAll rest,
    first.nestingChain_absorbAll rest⟩

theorem exists_containers {table : TypeTable} {names inners : List String}
    (h : List.Forall₂ (fun name inner => ∃ entry, table.get? name = some entry ∧
      .nestedType inner ∈ entry.members) names inners) :
    ∃ containers : List TypeSymbol, names.map table.get? = containers.map some ∧
      List.Forall₂ (fun container inner => .nestedType inner ∈ container.members)
        containers inners := by
  induction h with
  | nil => exact ⟨[], rfl, .nil⟩
  | cons hentry _ ih =>
    obtain ⟨entry, he, hm⟩ := hentry
    obtain ⟨containers, hc, hall⟩ := ih
    exact ⟨entry :: containers, by simp [he, hc], .cons hm hall⟩

theorem Built.exists_encloses {table : TypeTable} {symbols : List TypeSymbol}
    (hb : table.Built symbols)
    (hr : TypeSymbol.Rooted (fun symbol => symbol.containingTypes = []) symbols)
    {symbol : TypeSymbol} (h : symbol ∈ table.types) :
    ∃ containers, table.Encloses containers symbol := by
  obtain ⟨first, hf, hnames, hchain⟩ := hb.exists_first h
  have hall : List.Forall₂ (fun name inner => ∃ entry, table.get? name = some entry ∧
      .nestedType inner ∈ entry.members) symbol.containerNames symbol.nestingChain.tail := by
    rw [hnames, hchain]
    refine (hr.forall₂_containerNames first hf).imp ?_
    rintro _ inner ⟨outer, ho, rfl, hm⟩
    obtain ⟨entry, he, hkept⟩ := hb.exists_get?_of_mem ho
    exact ⟨entry, he, hkept _ hm⟩
  obtain ⟨containers, hentries, hmembers⟩ := exists_containers hall
  exact ⟨containers, hentries, hmembers⟩

theorem Encloses.qualifyTypes {table : TypeTable} {containers : List TypeSymbol}
    {symbol : TypeSymbol} (h : table.Encloses containers symbol) :
    table.qualifyTypes.Encloses (containers.map (TypeSymbol.qualifyTypes table))
      (symbol.qualifyTypes table) := by
  constructor
  · calc symbol.containerNames.map table.qualifyTypes.get?
        = (symbol.containerNames.map table.get?).map
            (Option.map (TypeSymbol.qualifyTypes table)) := by
          rw [List.map_map, funext table.get?_qualifyTypes]
          rfl
      _ = (containers.map some).map (Option.map (TypeSymbol.qualifyTypes table)) := by
          rw [h.entries]
      _ = (containers.map (TypeSymbol.qualifyTypes table)).map some := by
          rw [List.map_map, List.map_map]
          rfl
  · refine List.forall₂_map_left_iff.mpr (h.members.imp ?_)
    intro container inner hm
    -- Only methods have texts to rewrite.
    exact List.mem_map.mpr ⟨.nestedType inner, hm, rfl⟩

theorem Encloses.isOpenIn_eq {table : TypeTable} {containers : List TypeSymbol}
    {symbol : TypeSymbol} (h : table.Encloses containers symbol) :
    symbol.isOpenIn table.model = (symbol :: containers).any TypeSymbol.isGeneric := by
  have hcontainers : (symbol.containerNames.any fun name =>
      (table.get? name).any TypeSymbol.isGeneric) = containers.any TypeSymbol.isGeneric := by
    have hmap := congrArg (List.any · (Option.any TypeSymbol.isGeneric)) h.entries
    simpa only [List.any_map, Function.comp_def, Option.any_some] using hmap
  rw [TypeSymbol.isOpenIn, List.any_cons]
  exact congrArg (symbol.isGeneric || ·) hcontainers

end TypeTable
end HookEvents
