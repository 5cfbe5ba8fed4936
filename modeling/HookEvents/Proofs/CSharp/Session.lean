import HookEvents.CSharp.Session
import Mathlib.Data.Set.Function

/-!
A session answers as if it read every text anew, as long as no two of the texts that it is asked
about have the same fingerprint.
-/
namespace HookEvents.CSharp

inductive Request where
  | scan (source : String)
  | types (source : String)
  | analyze (source : String)
  deriving DecidableEq, Repr

inductive Answer where
  | references (refs : HookReferences)
  | types (symbols : List TypeSymbol)
  | analysis (analysis : Analysis)
  deriving DecidableEq, Repr

namespace Request

def source : Request → String
  | .scan source => source
  | .types source => source
  | .analyze source => source

def answer : Request → Answer
  | .scan source => .references (CSharp.scan source)
  | .types source => .types (CSharp.types source)
  | .analyze source => .analysis (CSharp.analyze source)

def about (source : String) : Request → Request
  | .scan _ => .scan source
  | .types _ => .types source
  | .analyze _ => .analyze source

theorem about_source (request : Request) : request.about request.source = request := by
  cases request <;> rfl

end Request

namespace Session

variable {κ : Type} [DecidableEq κ] (fingerprint : String → κ)

def serve (session : Session κ) : Request → Answer × Session κ
  | .scan source =>
    let (refs, session) := session.scan fingerprint source
    (.references refs, session)
  | .types source =>
    let (symbols, session) := session.types fingerprint source
    (.types symbols, session)
  | .analyze source =>
    let (analysis, session) := session.analyze fingerprint source
    (.analysis analysis, session)

def run (session : Session κ) : List Request → List Answer × Session κ
  | [] => ([], session)
  | request :: requests =>
    let (answer, session) := session.serve fingerprint request
    let (answers, session) := run session requests
    (answer :: answers, session)

def keeping (kept : Option String) : Session κ :=
  { last := kept.map fun source => (fingerprint source, parse source) }

def shown : Option String → String → String
  | none, source => source
  | some kept, source => if fingerprint kept = fingerprint source then kept else source

variable {fingerprint}

theorem shown_some (kept source : String) :
    shown fingerprint (some kept) source =
      if fingerprint kept = fingerprint source then kept else source := rfl

theorem fingerprint_shown (kept : Option String) (source : String) :
    fingerprint (shown fingerprint kept source) = fingerprint source := by
  cases kept with
  | none => rfl
  | some kept =>
    rw [shown_some]
    split
    next h => exact h
    · rfl

theorem shown_shown (kept : Option String) (source : String) :
    shown fingerprint (some (shown fingerprint kept source)) source =
      shown fingerprint kept source := by
  rw [shown_some, if_pos (fingerprint_shown kept source)]

theorem tree_keeping (kept : Option String) (source : String) :
    (keeping fingerprint kept).tree fingerprint source =
      (parse (shown fingerprint kept source),
        keeping fingerprint (some (shown fingerprint kept source))) := by
  cases kept with
  | none => rfl
  | some kept =>
    rw [shown_some]
    change (if fingerprint kept = fingerprint source then _ else _) = _
    split <;> rfl

theorem serve_keeping (kept : Option String) (request : Request) :
    (keeping fingerprint kept).serve fingerprint request =
      ((request.about (shown fingerprint kept request.source)).answer,
        keeping fingerprint (some (shown fingerprint kept request.source))) := by
  cases request with
  | scan source => simp only [serve, Session.scan, tree_keeping]; rfl
  | types source => simp only [serve, Session.types, tree_keeping]; rfl
  | analyze source =>
    simp only [serve, Session.analyze, Session.scan, Session.types, tree_keeping, shown_shown]
    rfl

theorem shown_eq {contents : Set String} (h : Set.InjOn fingerprint contents)
    {kept : Option String} (hk : ∀ other ∈ kept, other ∈ contents) {source : String}
    (hs : source ∈ contents) : shown fingerprint kept source = source := by
  cases kept with
  | none => rfl
  | some kept =>
    rw [shown_some]
    split
    next he => exact h (hk kept rfl) hs he
    · rfl

theorem serve_eq {contents : Set String} (h : Set.InjOn fingerprint contents)
    {kept : Option String} (hk : ∀ other ∈ kept, other ∈ contents) {request : Request}
    (hr : request.source ∈ contents) :
    (keeping fingerprint kept).serve fingerprint request =
      (request.answer, keeping fingerprint (some request.source)) := by
  rw [serve_keeping, shown_eq h hk hr, request.about_source]

theorem run_eq {contents : Set String} (h : Set.InjOn fingerprint contents)
    {kept : Option String} (hk : ∀ other ∈ kept, other ∈ contents) {requests : List Request}
    (hr : ∀ request ∈ requests, request.source ∈ contents) :
    ∃ last : Option String, (∀ other ∈ last, other ∈ contents) ∧
      (keeping fingerprint kept).run fingerprint requests =
        (requests.map Request.answer, keeping fingerprint last) := by
  induction requests generalizing kept with
  | nil => exact ⟨kept, hk, rfl⟩
  | cons request requests ih =>
    have hsource := hr request (by simp)
    have hkept : ∀ other ∈ some request.source, other ∈ contents := by
      rintro other ⟨⟩
      exact hsource
    obtain ⟨last, hlast, hrun⟩ := ih hkept fun other ho => hr other (by simp [ho])
    refine ⟨last, hlast, ?_⟩
    rw [run, serve_eq h hk hsource]
    dsimp only
    rw [hrun]
    rfl

theorem serve_fresh (request : Request) :
    (serve fingerprint {} request).1 = request.answer := by
  have hnone : ∀ other ∈ (none : Option String), other ∈ ({request.source} : Set String) := by simp
  have hserve := serve_eq (Set.injOn_singleton fingerprint request.source) hnone
    (Set.mem_singleton request.source)
  exact congrArg Prod.fst hserve

theorem run_transparent (fingerprint : String → κ) (requests : List Request)
    (h : Set.InjOn fingerprint {source | source ∈ requests.map Request.source}) :
    (run fingerprint {} requests).1 =
      requests.map (fun request => (serve fingerprint {} request).1) ∧
    (∀ before request after, requests = before ++ request :: after →
      (serve fingerprint (run fingerprint {} before).2 request).1 =
        (serve fingerprint {} request).1) ∧
    ∀ request ∈ requests, (serve fingerprint {} request).1 = request.answer := by
  have hnone : ∀ other ∈ (none : Option String),
      other ∈ {source | source ∈ requests.map Request.source} := by simp
  have hcontents : ∀ request ∈ requests,
      request.source ∈ {source | source ∈ requests.map Request.source} := by
    intro request hr
    exact List.mem_map_of_mem hr
  refine ⟨?_, ?_, fun request _ => serve_fresh request⟩
  · obtain ⟨last, -, hrun⟩ := run_eq h hnone hcontents
    simp only [serve_fresh]
    exact congrArg Prod.fst hrun
  · rintro before request after rfl
    have hbefore : ∀ other ∈ before, other.source ∈
        {source | source ∈ (before ++ request :: after).map Request.source} := by
      intro other ho
      exact hcontents other (by simp [ho])
    obtain ⟨last, hlast, hrun⟩ := run_eq h hnone hbefore
    have hstate : (run fingerprint {} before).2 = keeping fingerprint last :=
      congrArg Prod.snd hrun
    rw [hstate, serve_eq h hlast (hcontents request (by simp)), serve_fresh]

theorem run_transparent_switching :
    let first := "class M { void L() { On.A.B += x; } }"
    let second := "class Mod { void L() { IL.C.D += x; } }"
    let requests := [Request.scan first, .analyze second, .types second, .scan first]
    Set.InjOn String.length {source | source ∈ requests.map Request.source} ∧
    (serve String.length {} (.scan first)).1 ≠ (serve String.length {} (.scan second)).1 ∧
    (run String.length {} requests).1 =
      requests.map (fun request => (serve String.length {} request).1) := by
  intro first second requests
  have hlengths : Set.InjOn String.length {source | source ∈ requests.map Request.source} := by
    have hdistinct : ∀ a ∈ requests.map Request.source, ∀ b ∈ requests.map Request.source,
        a.length = b.length → a = b := by decide +kernel
    exact fun a ha b hb => hdistinct a ha b hb
  exact ⟨hlengths, by decide +kernel, (run_transparent String.length requests hlengths).1⟩

end Session
end HookEvents.CSharp
