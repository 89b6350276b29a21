import RichMarkdown.Html.Page
import RichMarkdown.Proofs.Highlight.Sharing
import RichMarkdown.Proofs.Walk.Congruence
import RichMarkdown.Styled.Render

/-!
# Renderings that share a cache

A rendering makes one request for each code block that it visits. Here these requests go to a cache
that others use at the same time (`sharing`): before each of their steps the others may take any
steps of theirs. A backend that asks a highlighter for code blocks only (`Consults`) makes of a
document what it makes with the inner highlighter at hand.

* `Consults.document_sharing`: the two walks agree.
* `cache_transparent`: all that a shared cache promises, for every schedule.
-/

set_option autoImplicit false

namespace RichMarkdown

/-- The highlighter that gives the same tokens for every code text. -/
def Highlighter.constant (tokens : List Token) : Highlighter where
  tokenize _ _ := tokens
  supports _ := true

theorem Highlighter.fittingTokens?_congr {h h' : Highlighter} {code : String}
    {language : Option String} (ht : h.tokenize code language = h'.tokenize code language) :
    h.fittingTokens? code language = h'.fittingTokens? code language := by
  rw [fittingTokens?, fittingTokens?, ht]

namespace Sharing

variable {σ : Type}

/-- A backend that asks its highlighter for the tokens of code blocks, and for nothing else. -/
structure Consults (b : Highlighter → Backend σ) : Prop where
  code {h h' : Highlighter} {language : Option String} {literal : String} (c : Context) (s : σ) :
    h.tokenize literal language = h'.tokenize literal language →
    (b h).leaf c (.codeBlock language literal) s = (b h').leaf c (.codeBlock language literal) s
  leaf (h h' : Highlighter) {l : Leaf} (c : Context) (s : σ) :
    (∀ language literal, l ≠ .codeBlock language literal) → (b h).leaf c l s = (b h').leaf c l s
  start (h h' : Highlighter) : (b h).start = (b h').start
  finish (h h' : Highlighter) : (b h).finish = (b h').finish

theorem consults_html (settings : Html.Settings) :
    Consults fun h => Html.backend { settings with highlighter := some h } where
  code c s ht := by
    simp only [Html.backend, Html.leafPieces, Html.codeBlock, Html.codePieces, Option.bind_some,
      Highlighter.fittingTokens?_congr ht]
  leaf h h' l c s hl := by
    cases l with
    | codeBlock language literal => exact absurd rfl (hl language literal)
    | _ => rfl
  start h h' := by
    funext c f s
    cases f <;> rfl
  finish h h' := rfl

theorem consults_styled (theme : Theme) :
    Consults fun h => Layout.backend Styled.sink (some ⟨h, theme⟩) where
  code c s ht := by
    simp only [Layout.backend, Layout.leaf, Layout.State.codeBlock, Layout.State.writeCode,
      Highlighter.fittingTokens?_congr ht]
  leaf h h' l c s hl := by
    cases l with
    | codeBlock language literal => exact absurd rfl (hl language literal)
    | _ => rfl
  start h h' := rfl
  finish h h' := rfl

/-- What others do around a request, settled by all that has happened before it. -/
structure Others where
  before : State → List Action
  between : State → List Action
  after : State → List Action

/-- A request of one caller among others. -/
def requested (inner : Highlighter) (caller : Nat) (o : Others) (key : CacheKey) (s : State) :
    State :=
  run inner (request caller key (o.before s) (o.between s) (o.after s)) s

/-- A backend that makes the requests for its code blocks as one of the callers of a cache. -/
def sharing (b : Highlighter → Backend σ) (inner : Highlighter) (caller : Nat) (o : Others) :
    Backend (σ × State) where
  leaf c l s :=
    match l with
    | .codeBlock language literal =>
      let shared := requested inner caller o ⟨language, literal⟩ s.2
      ((b (.constant (shared.phase caller).tokens)).leaf c l s.1, shared)
    | _ => ((b .plain).leaf c l s.1, s.2)
  start c f s := (((b .plain).start c f s.1).1, ((b .plain).start c f s.1).2, s.2)
  finish c f s := ((b .plain).finish c f s.1, s.2)

/-- The backend that shares a cache follows the one that has the inner highlighter. -/
theorem Consults.simulation {b : Highlighter → Backend σ} (hb : Consults b) (inner : Highlighter)
    {limit : Nat} (hl : 0 < limit) (i : Nat) (o : Others) :
    Walk.Simulation (sharing b inner i o) (b inner) (fun _ => True) fun s t =>
      s.1 = t ∧ Faithful inner limit s.2 ∧ (s.2.phase i).isBusy = false where
  leaf := by
    rintro c l ⟨out, s⟩ t - ⟨rfl, hs, hfree⟩
    by_cases hcode : ∃ language literal, l = .codeBlock language literal
    · obtain ⟨language, literal, rfl⟩ := hcode
      have hphase := hs.answered hl hfree ⟨language, literal⟩ (o.before s) (o.between s) (o.after s)
      refine ⟨hb.code c out ?_, hs.run hl _, ?_⟩
      · exact congrArg Phase.tokens hphase
      · exact congrArg Phase.isBusy hphase
    · have hl' : ∀ language literal, l ≠ .codeBlock language literal := by simpa using hcode
      have hleaf : (sharing b inner i o).leaf c l (out, s) = ((b .plain).leaf c l out, s) := by
        cases l with
        | codeBlock language literal => exact absurd rfl (hl' language literal)
        | _ => rfl
      rw [hleaf]
      exact ⟨hb.leaf _ _ c out hl', hs, hfree⟩
  space := trivial
  start := by
    rintro c f ⟨out, s⟩ t ⟨rfl, hs, hfree⟩
    have hstart := hb.start .plain inner
    exact ⟨by simp only [sharing, hstart], by simp only [sharing, hstart], hs, hfree⟩
  finish := by
    rintro c f ⟨out, s⟩ t ⟨rfl, hs, hfree⟩
    exact ⟨by simp only [sharing, hb.finish .plain inner], hs, hfree⟩

/-- **Rendering with a shared cache changes nothing.** -/
theorem Consults.document_sharing {b : Highlighter → Backend σ} (hb : Consults b)
    {inner : Highlighter} {limit : Nat} {s : State} (hs : Faithful inner limit s) (hl : 0 < limit)
    {i : Nat} (hfree : (s.phase i).isBusy = false) (o : Others) (d : Document) (c : Context)
    (out : σ) :
    (Walk.document (sharing b inner i o) d c (out, s)).1.1 = (Walk.document (b inner) d c out).1 ∧
      (Walk.document (sharing b inner i o) d c (out, s)).2 =
        (Walk.document (b inner) d c out).2 := by
  obtain ⟨⟨hout, -⟩, hc⟩ := (hb.simulation inner hl i o).document
    (blocksEveryLeaf_of_forall (fun _ => trivial) d) c (s := (out, s)) (t := out) ⟨rfl, hs, hfree⟩
  exact ⟨hout, hc⟩

/-- The page of a document, highlighted through a shared cache, and the context after it. -/
def htmlIn (settings : Html.Settings) (inner : Highlighter) (caller : Nat) (o : Others)
    (shared : State) (d : Document) (c : Context) : String × Context :=
  let (s, c) := Walk.document
    (sharing (fun h => Html.backend { settings with highlighter := some h }) inner caller o) d c
    ({}, shared)
  (Html.render s.1.pieces.toList, c)

/-- A document in styled text, highlighted through a shared cache, and the context after it. -/
def styledIn (settings : Styled.Settings) (inner : Highlighter) (caller : Nat) (o : Others)
    (shared : State) (d : Document) (c : Context) : StyledText × Context :=
  let (s, c) := Walk.document
    (sharing (fun h => Layout.backend Styled.sink (some ⟨h, settings.theme⟩)) inner caller o) d c
    ({ out := {} }, shared)
  (s.1.out, c)

/-- **A shared cache is transparent and bounded.** Whatever steps any callers take in whatever
order: requests return what the inner highlighter answers, the cache holds its answers, one for each
key and within the capacity, and the inner highlighter is asked once for each look-up that missed.
A caller whose request gets its steps has it answered, and renders every document through the cache
as it does without one. -/
theorem cache_transparent (inner : Highlighter) (capacity : Nat) (schedule : List Action) :
    let s := run inner schedule (State.new capacity)
    (∀ i key tokens, .hit i key tokens ∈ s.log ∨ .stored i key tokens ∈ s.log →
      tokens = inner.tokenize key.code key.language) ∧
    (∀ e ∈ s.cache.entries, e.2 = inner.tokenize e.1.code e.1.language) ∧
    (s.cache.entries.map (·.1)).Nodup ∧ s.cache.size ≤ max capacity 1 ∧
    (∀ i key, s.log.count (.asked i key) + (if s.phase i = .missed key then 1 else 0) =
      s.log.count (.missed i key)) ∧
    ∀ i, (s.phase i).isBusy = false →
      (∀ key before between after, (run inner (request i key before between after) s).phase i =
        .answered key (inner.tokenize key.code key.language)) ∧
      ∀ (o : Others) (d : Document) (c : Context),
        (∀ settings : Html.Settings, htmlIn settings inner i o s d c =
          Html.renderIn { settings with highlighter := some inner } d c) ∧
        ∀ settings : Styled.Settings, styledIn settings inner i o s d c =
          Styled.renderIn { settings with highlighter := some inner } d c := by
  intro s
  have hl : 0 < max capacity 1 := Nat.lt_of_lt_of_le Nat.zero_lt_one (Nat.le_max_right _ _)
  have hs : Faithful inner (max capacity 1) s := faithful_run inner capacity schedule
  refine ⟨?_, hs.cache.answers, hs.cache.distinct, hs.cache.size_le, hs.questions, ?_⟩
  · rintro i key tokens (he | he)
    · exact hs.log _ he key tokens rfl
    · exact hs.log _ he key tokens rfl
  · intro i hfree
    refine ⟨hs.answered hl hfree, fun o d c => ⟨fun settings => ?_, fun settings => ?_⟩⟩
    · obtain ⟨hout, hc⟩ := (consults_html settings).document_sharing hs hl hfree o d c {}
      simp only [htmlIn, Html.renderIn, hout, hc]
    · obtain ⟨hout, hc⟩ := (consults_styled settings.theme).document_sharing hs hl hfree o d c
        { out := {} }
      simp only [styledIn, Styled.renderIn, Layout.renderIn, Styled.Settings.codeColors,
        Option.map_some, hout, hc]

/-- Two callers that miss the same key, an emptying between their answers, and a third request that
is still to ask. -/
def crossing : List Action :=
  [.lookUp 0 ⟨some "rust", "fn"⟩, .lookUp 1 ⟨some "rust", "fn"⟩, .ask 1, .ask 0, .store 0, .clear,
    .supports "rust", .store 1, .lookUp 0 ⟨some "rust", "fn"⟩, .lookUp 1 ⟨none, "fn"⟩]

theorem cache_transparent_crossing :
    let inner := Highlighter.constant [⟨0, 2, .keyword⟩]
    let s := run inner crossing (State.new 0)
    .hit 0 ⟨some "rust", "fn"⟩ [⟨0, 2, .keyword⟩] ∈ s.log ∧
    (⟨some "rust", "fn"⟩, [⟨0, 2, .keyword⟩]) ∈ s.cache.entries ∧ (s.phase 0).isBusy = false ∧
    inner.tokenize "fn" (some "rust") = [⟨0, 2, .keyword⟩] ∧ s.cache.size ≤ 1 ∧
    htmlIn {} inner 0 ⟨fun _ => [.store 1], fun _ => [.clear], fun _ => []⟩ s
      [.code none "fn"] {} = Html.renderIn { highlighter := some inner } [.code none "fn"] {} := by
  intro inner s
  obtain ⟨hlog, hentries, -, hsize, -, hcaller⟩ := cache_transparent inner 0 crossing
  have hhit : .hit 0 ⟨some "rust", "fn"⟩ [⟨0, 2, .keyword⟩] ∈ s.log := by decide
  have hentry : (⟨some "rust", "fn"⟩, [⟨0, 2, .keyword⟩]) ∈ s.cache.entries := by decide
  have hfree : (s.phase 0).isBusy = false := by decide
  exact ⟨hhit, hentry, hfree, (hlog _ _ _ (.inl hhit)).symm, hsize,
    ((hcaller 0 hfree).2 _ _ _).1 {}⟩

end Sharing

end RichMarkdown
