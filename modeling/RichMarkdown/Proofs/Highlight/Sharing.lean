import Mathlib.Logic.Function.Basic
import RichMarkdown.Highlight.Cache

/-!
# Callers that share a cache

Any number of callers use one cache at the same time. A request takes up to three steps, and other
callers may take steps of theirs before each of them: the look-up, after a miss the question to the
inner highlighter, and then the storing of its answer. A schedule is a list of such steps, of
emptyings and of questions for languages; a step out of turn does nothing, so every list is a
schedule. `run` follows a schedule and writes down what happens (`Event`).

* `Cache.Remembers`: what a cache holds is what the inner highlighter answers, within its capacity.
* `Faithful.step`, `faithful_run`: every step of every schedule keeps the cache and the callers true
  to the inner highlighter, and there is one question for each look-up that missed.
* `Faithful.answered`: a request that gets its steps is answered, whatever others do in between.
-/

set_option autoImplicit false

namespace RichMarkdown

/-- The answer of a highlighter to a request. -/
def Highlighter.answer (inner : Highlighter) (key : CacheKey) : List Token :=
  inner.tokenize key.code key.language

/-! ## Caches -/

namespace Cache

variable {inner : Highlighter} {limit : Nat} {cache : Cache}

/-- The cache holds answers of the highlighter, one for each key and no more than `limit`. -/
structure Remembers (inner : Highlighter) (limit : Nat) (cache : Cache) : Prop where
  capacity : cache.capacity = limit
  answers : ∀ e ∈ cache.entries, e.2 = inner.answer e.1
  distinct : (cache.entries.map (·.1)).Nodup
  size_le : cache.size ≤ limit

theorem remembers_empty (inner : Highlighter) (capacity : Nat) :
    (empty capacity).Remembers inner (max capacity 1) :=
  ⟨rfl, fun _ h => absurd h List.not_mem_nil, List.nodup_nil, Nat.zero_le _⟩

theorem Remembers.clear (h : cache.Remembers inner limit) : cache.clear.Remembers inner limit :=
  ⟨h.capacity, fun _ h => absurd h List.not_mem_nil, List.nodup_nil, Nat.zero_le _⟩

theorem Remembers.find? (h : cache.Remembers inner limit) {key : CacheKey} {tokens : List Token}
    (hf : cache.find? key = some tokens) : tokens = inner.answer key := by
  obtain ⟨before, after, hentries, -⟩ := List.lookup_eq_some_iff.mp hf
  exact h.answers (key, tokens) (by simp [hentries])

theorem Remembers.store (h : cache.Remembers inner limit) (hl : 0 < limit) (key : CacheKey) :
    (cache.store key (inner.answer key)).Remembers inner limit := by
  -- what is kept is part of what was there, and a full cache keeps nothing
  obtain ⟨kept, hkept, hsub, hroom⟩ : ∃ kept : List (CacheKey × List Token),
      cache.store key (inner.answer key) =
        { cache with entries := (key, inner.answer key) :: kept.filter (·.1 ≠ key) } ∧
      List.Sublist kept cache.entries ∧ kept.length < limit := by
    refine ⟨_, rfl, ?_, ?_⟩
    · split
      · exact List.nil_sublist _
      · exact List.Sublist.refl _
    · split
      · exact hl
      · rename_i hfull
        rw [h.capacity] at hfull
        exact Nat.not_le.mp hfull
  rw [hkept]
  refine ⟨h.capacity, ?_, ?_, ?_⟩
  · intro e he
    rcases List.mem_cons.mp he with rfl | he
    · rfl
    · exact h.answers e (hsub.mem (List.mem_filter.mp he).1)
  · rw [List.map_cons, List.nodup_cons]
    refine ⟨?_, h.distinct.sublist ((List.filter_sublist.trans hsub).map _)⟩
    intro hm
    obtain ⟨e, he, hkey⟩ := List.mem_map.mp hm
    simpa [hkey] using (List.mem_filter.mp he).2
  · have hlen : (kept.filter (·.1 ≠ key)).length ≤ kept.length := List.length_filter_le _ _
    exact Nat.lt_of_le_of_lt hlen hroom

end Cache

namespace Sharing

/-! ## Schedules -/

/-- Where a caller is in its latest request. -/
inductive Phase where
  /-- It has asked for nothing yet. -/
  | idle
  /-- The cache does not know the key. -/
  | missed (key : CacheKey)
  /-- The inner highlighter has answered, and the answer is not stored yet. -/
  | asked (key : CacheKey) (tokens : List Token)
  /-- The request has returned. -/
  | answered (key : CacheKey) (tokens : List Token)
  deriving DecidableEq, Repr

/-- Whether a request is under way. -/
def Phase.isBusy : Phase → Bool
  | .missed _ | .asked _ _ => true
  | .idle | .answered _ _ => false

/-- The tokens that the latest request has returned. -/
def Phase.tokens : Phase → List Token
  | .answered _ tokens => tokens
  | _ => []

/-- A step of one of the callers. -/
inductive Action where
  | lookUp (caller : Nat) (key : CacheKey)
  | ask (caller : Nat)
  | store (caller : Nat)
  | clear
  | supports (language : String)
  deriving DecidableEq, Repr

/-- The caller whose request a step is part of. -/
def Action.caller? : Action → Option Nat
  | .lookUp caller _ | .ask caller | .store caller => some caller
  | .clear | .supports _ => none

/-- The steps that are no part of the requests of one caller. -/
def others (caller : Nat) (schedule : List Action) : List Action :=
  schedule.filter (·.caller? ≠ some caller)

/-- What happens in a step. -/
inductive Event where
  /-- A look-up finds the tokens, and the request returns them. -/
  | hit (caller : Nat) (key : CacheKey) (tokens : List Token)
  | missed (caller : Nat) (key : CacheKey)
  /-- The inner highlighter is asked for tokens. -/
  | asked (caller : Nat) (key : CacheKey)
  /-- An answer is stored, and the request returns it. -/
  | stored (caller : Nat) (key : CacheKey) (tokens : List Token)
  | cleared
  | supported (language : String) (answer : Bool)
  deriving DecidableEq, Repr

/-- A cache in use: where each caller is, and what has happened, the latest event first. -/
structure State where
  cache : Cache
  phase : Nat → Phase
  log : List Event

/-- A new cache, of which nobody has asked anything. -/
def State.new (capacity : Nat) : State := ⟨.empty capacity, fun _ => .idle, []⟩

/-- Notes an event that brings a caller into another phase. -/
def State.note (s : State) (caller : Nat) (phase : Phase) (event : Event) : State :=
  { s with phase := Function.update s.phase caller phase, log := event :: s.log }

/-- One step. A step that is not the caller's turn does nothing. -/
def step (inner : Highlighter) (s : State) : Action → State
  | .lookUp caller key =>
    if (s.phase caller).isBusy then s
    else
      match s.cache.find? key with
      | some tokens => s.note caller (.answered key tokens) (.hit caller key tokens)
      | none => s.note caller (.missed key) (.missed caller key)
  | .ask caller =>
    match s.phase caller with
    | .missed key => s.note caller (.asked key (inner.answer key)) (.asked caller key)
    | _ => s
  | .store caller =>
    match s.phase caller with
    | .asked key tokens =>
      { s.note caller (.answered key tokens) (.stored caller key tokens) with
        cache := s.cache.store key tokens }
    | _ => s
  | .clear => { s with cache := s.cache.clear, log := .cleared :: s.log }
  | .supports language =>
    { s with log := .supported language (inner.supports language) :: s.log }

/-- Follows a schedule. -/
def run (inner : Highlighter) (schedule : List Action) (s : State) : State :=
  schedule.foldl (step inner) s

theorem run_append (inner : Highlighter) (a b : List Action) (s : State) :
    run inner (a ++ b) s = run inner b (run inner a s) :=
  List.foldl_append

theorem run_cons (inner : Highlighter) (a : Action) (as : List Action) (s : State) :
    run inner (a :: as) s = run inner as (step inner s a) := rfl

/-! ## What every step keeps -/

/-- What an event says about the answer to a key, if it says anything. -/
def Event.answer? : Event → Option (CacheKey × List Token)
  | .hit _ key tokens | .stored _ key tokens => some (key, tokens)
  | _ => none

/-- What a phase says about the answer to a key, if it says anything. -/
def Phase.answer? : Phase → Option (CacheKey × List Token)
  | .asked key tokens | .answered key tokens => some (key, tokens)
  | _ => none

/-- All that is known of answers is true, and look-ups that missed have led to one question each. -/
structure Faithful (inner : Highlighter) (limit : Nat) (s : State) : Prop where
  cache : s.cache.Remembers inner limit
  phase : ∀ i key tokens, (s.phase i).answer? = some (key, tokens) → tokens = inner.answer key
  log : ∀ e ∈ s.log, ∀ key tokens, e.answer? = some (key, tokens) → tokens = inner.answer key
  /-- The caller of a look-up that has just missed has still to ask. -/
  questions : ∀ i key, s.log.count (.asked i key) + (if s.phase i = .missed key then 1 else 0) =
    s.log.count (.missed i key)

variable {inner : Highlighter} {limit : Nat} {s : State}

theorem faithful_new (inner : Highlighter) (capacity : Nat) :
    Faithful inner (max capacity 1) (State.new capacity) where
  cache := Cache.remembers_empty inner capacity
  phase _ _ _ h := nomatch h
  log _ h := absurd h List.not_mem_nil
  questions _ _ := rfl

/-- A caller moves on with what it says true, and the questions in step with the misses. -/
theorem Faithful.note (h : Faithful inner limit s) (i : Nat) {phase : Phase} {event : Event}
    (hp : ∀ key tokens, phase.answer? = some (key, tokens) → tokens = inner.answer key)
    (he : ∀ key tokens, event.answer? = some (key, tokens) → tokens = inner.answer key)
    (hother : ∀ j key, j ≠ i → event ≠ .asked j key ∧ event ≠ .missed j key)
    (hown : ∀ key, (event :: s.log).count (.asked i key) + (if phase = .missed key then 1 else 0) =
      (event :: s.log).count (.missed i key)) : Faithful inner limit (s.note i phase event) where
  cache := h.cache
  phase j key tokens hj := by
    by_cases hji : j = i
    · subst hji
      exact hp key tokens (by simpa [State.note] using hj)
    · exact h.phase j key tokens (by simpa [State.note, hji] using hj)
  log e hm := by
    rcases List.mem_cons.mp hm with rfl | hm
    · exact he
    · exact h.log e hm
  questions j key := by
    by_cases hji : j = i
    · subst hji
      simpa [State.note] using hown key
    · have hne := hother j key hji
      simpa [State.note, hji, List.count_cons_of_ne hne.1, List.count_cons_of_ne hne.2] using
        h.questions j key

/-- What happens to nobody's request changes no count of questions. -/
theorem Faithful.aside (h : Faithful inner limit s) {cache : Cache}
    (hc : cache.Remembers inner limit) {event : Event} (he : event.answer? = none)
    (hne : ∀ i key, event ≠ .asked i key ∧ event ≠ .missed i key) :
    Faithful inner limit { s with cache, log := event :: s.log } where
  cache := hc
  phase := h.phase
  log e hm := by
    rcases List.mem_cons.mp hm with rfl | hm
    · simp [he]
    · exact h.log e hm
  questions i key := by
    simpa [List.count_cons_of_ne (hne i key).1, List.count_cons_of_ne (hne i key).2] using
      h.questions i key

theorem Faithful.lookUp (h : Faithful inner limit s) (i : Nat) (key : CacheKey) :
    Faithful inner limit (step inner s (.lookUp i key)) := by
  simp only [step]
  split
  · exact h
  rename_i hfree
  have hquestions (key : CacheKey) : s.log.count (.asked i key) = s.log.count (.missed i key) := by
    have hne : s.phase i ≠ .missed key := fun hm => hfree (by rw [hm]; rfl)
    simpa [hne] using h.questions i key
  split
  · rename_i tokens hf
    refine h.note i ?_ ?_ (by simp) (by simpa using hquestions)
    all_goals
      simp only [Phase.answer?, Event.answer?, Option.some.injEq, Prod.mk.injEq]
      rintro _ _ ⟨rfl, rfl⟩
      exact h.cache.find? hf
  · refine h.note i (by simp [Phase.answer?]) (by simp [Event.answer?])
      (fun j key hj => by simp [Ne.symm hj]) fun key' => ?_
    by_cases hk : key = key' <;> simp [hk, hquestions]

theorem Faithful.ask (h : Faithful inner limit s) (i : Nat) :
    Faithful inner limit (step inner s (.ask i)) := by
  simp only [step]
  split
  · rename_i key hm
    refine h.note i ?_ (by simp [Event.answer?]) (fun j key hj => by simp [Ne.symm hj])
      fun key' => ?_
    · simp only [Phase.answer?, Option.some.injEq, Prod.mk.injEq]
      rintro _ _ ⟨rfl, rfl⟩
      rfl
    · have hq := h.questions i key'
      rw [hm] at hq
      by_cases hk : key = key'
      · simpa [hk] using hq
      · simpa [hk] using hq
  · exact h

theorem Faithful.store (h : Faithful inner limit s) (hl : 0 < limit) (i : Nat) :
    Faithful inner limit (step inner s (.store i)) := by
  simp only [step]
  split
  · rename_i key tokens hp
    obtain rfl : tokens = inner.answer key := h.phase i key tokens (by rw [hp]; rfl)
    have hnote : Faithful inner limit (s.note i (.answered key (inner.answer key))
        (.stored i key (inner.answer key))) := by
      refine h.note i ?_ ?_ (by simp) fun key' => ?_
      · simp [Phase.answer?]
      · simp [Event.answer?]
      · simpa [hp] using h.questions i key'
    exact { hnote with cache := h.cache.store hl key }
  · exact h

/-- **Every step is faithful.** -/
theorem Faithful.step (h : Faithful inner limit s) (hl : 0 < limit) (a : Action) :
    Faithful inner limit (step inner s a) := by
  cases a with
  | lookUp i key => exact h.lookUp i key
  | ask i => exact h.ask i
  | store i => exact h.store hl i
  | clear => exact h.aside h.cache.clear rfl (by simp)
  | supports language => exact h.aside h.cache rfl (by simp)

theorem Faithful.run (h : Faithful inner limit s) (hl : 0 < limit) (schedule : List Action) :
    Faithful inner limit (run inner schedule s) := by
  induction schedule generalizing s with
  | nil => exact h
  | cons a as ih => exact ih (h.step hl a)

/-- Every schedule of a new cache is faithful. -/
theorem faithful_run (inner : Highlighter) (capacity : Nat) (schedule : List Action) :
    Faithful inner (max capacity 1) (Sharing.run inner schedule (State.new capacity)) :=
  (faithful_new inner capacity).run (Nat.lt_of_lt_of_le Nat.zero_lt_one (Nat.le_max_right _ _)) _

/-! ## Requests among others -/

theorem phase_step_other {a : Action} {i : Nat} (ha : a.caller? ≠ some i) (s : State) :
    (Sharing.step inner s a).phase i = s.phase i := by
  have hnote (j : Nat) (hj : some j ≠ some i) (p : Phase) (e : Event) :
      (s.note j p e).phase i = s.phase i :=
    Function.update_of_ne (fun hij => hj (congrArg some hij.symm)) _ _
  cases a with
  | lookUp j key =>
    simp only [Sharing.step]
    split
    · rfl
    · split <;> exact hnote j ha _ _
  | ask j =>
    simp only [Sharing.step]
    split
    · exact hnote j ha _ _
    · rfl
  | store j =>
    simp only [Sharing.step]
    split
    · rename_i key tokens _
      exact hnote j ha (.answered key tokens) (.stored j key tokens)
    · rfl
  | clear => rfl
  | supports language => rfl

/-- Others do not touch the request of a caller. -/
theorem phase_run_others (i : Nat) (schedule : List Action) (s : State) :
    (Sharing.run inner (others i schedule) s).phase i = s.phase i := by
  induction schedule generalizing s with
  | nil => rfl
  | cons a as ih =>
    unfold others at ih ⊢
    by_cases ha : a.caller? = some i
    · simpa [ha] using ih s
    · have hfilter : (a :: as).filter (·.caller? ≠ some i) =
          a :: as.filter (·.caller? ≠ some i) := by simp [ha]
      rw [hfilter, run_cons, ih, phase_step_other ha]

/-- The steps of one request, with the steps of others before each of them. -/
def request (caller : Nat) (key : CacheKey) (before between after : List Action) : List Action :=
  others caller before ++ .lookUp caller key :: (others caller between ++ .ask caller ::
    (others caller after ++ [.store caller]))

/-- **A request is answered** as soon as it has had its steps, whatever others do in between. -/
theorem Faithful.answered (h : Faithful inner limit s) (hl : 0 < limit) {i : Nat}
    (hfree : (s.phase i).isBusy = false) (key : CacheKey) (before between after : List Action) :
    (Sharing.run inner (request i key before between after) s).phase i =
      .answered key (inner.answer key) := by
  have hbusy : ((Sharing.run inner (others i before) s).phase i).isBusy = false := by
    rw [phase_run_others, hfree]
  have hrun := h.run hl (others i before)
  simp only [request, run_append, run_cons]
  generalize Sharing.run inner (others i before) s = t at hbusy hrun
  have hphase : (Sharing.run inner (others i between)
      (Sharing.step inner t (.lookUp i key))).phase i =
      (Sharing.step inner t (.lookUp i key)).phase i := phase_run_others i between _
  generalize Sharing.run inner (others i between) (Sharing.step inner t (.lookUp i key)) = u
    at hphase
  have hphase' : (Sharing.run inner (others i after) (Sharing.step inner u (.ask i))).phase i =
      (Sharing.step inner u (.ask i)).phase i := phase_run_others i after _
  generalize Sharing.run inner (others i after) (Sharing.step inner u (.ask i)) = v at hphase'
  cases hf : t.cache.find? key with
  | some tokens =>
    -- the look-up answers, and there is nothing left to do
    have hu : u.phase i = .answered key tokens := by
      simpa [Sharing.step, hbusy, hf, State.note] using hphase
    have hv : v.phase i = .answered key tokens := by simpa [Sharing.step, hu] using hphase'
    simp [Sharing.run, Sharing.step, hv, hrun.cache.find? hf]
  | none =>
    have hu : u.phase i = .missed key := by
      simpa [Sharing.step, hbusy, hf, State.note] using hphase
    have hv : v.phase i = .asked key (inner.answer key) := by
      simpa [Sharing.step, hu, State.note] using hphase'
    simp [Sharing.run, Sharing.step, hv, State.note]

/-- A request that no other comes between goes as one on a cache of its own: it returns the same
tokens and leaves the same cache. -/
theorem cache_request {i : Nat} (hfree : (s.phase i).isBusy = false) (key : CacheKey) :
    (Sharing.run inner (request i key [] [] []) s).phase i =
        .answered key (s.cache.tokenize inner key.code key.language).1 ∧
      (Sharing.run inner (request i key [] [] []) s).cache =
        (s.cache.tokenize inner key.code key.language).2.1 := by
  cases hf : s.cache.find? key <;>
    simp [request, others, Sharing.run, Sharing.step, hfree, hf, State.note, Cache.tokenize,
      Highlighter.answer]

end Sharing

end RichMarkdown
