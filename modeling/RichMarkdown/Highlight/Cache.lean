import RichMarkdown.Highlight.Highlighter

/-!
# Remembered tokens

A cache keeps the tokens of the code texts it has seen, by language and code. A request is a look-up
(`Cache.find?`), and after a miss the inner highlighter's answer is stored (`Cache.store`). A full
cache is emptied before the next entry is stored, so it never holds more than its capacity.
-/

set_option autoImplicit false

namespace RichMarkdown

structure CacheKey where
  language : Option String
  code : String
  deriving DecidableEq, Repr

/-- Remembered tokens, at most `capacity` entries. -/
structure Cache where
  capacity : Nat
  entries : List (CacheKey × List Token)

namespace Cache

/-- The number of entries kept unless told otherwise. -/
def defaultCapacity : Nat := 1024

/-- A cache without entries that keeps at least one. -/
def empty (capacity : Nat) : Cache := ⟨max capacity 1, []⟩

def size (cache : Cache) : Nat := cache.entries.length

def find? (cache : Cache) (key : CacheKey) : Option (List Token) := cache.entries.lookup key

def clear (cache : Cache) : Cache := { cache with entries := [] }

/-- Remembers tokens, in place of those of the same key; a full cache is emptied first. -/
def store (cache : Cache) (key : CacheKey) (tokens : List Token) : Cache :=
  let kept := if cache.capacity ≤ cache.size then [] else cache.entries
  { cache with entries := (key, tokens) :: kept.filter (·.1 ≠ key) }

/-- The answer to one request, the cache after it, and whether the highlighter was asked. -/
def tokenize (cache : Cache) (inner : Highlighter) (code : String) (language : Option String) :
    List Token × Cache × Bool :=
  match cache.find? ⟨language, code⟩ with
  | some tokens => (tokens, cache, false)
  | none =>
    let tokens := inner.tokenize code language
    (tokens, cache.store ⟨language, code⟩ tokens, true)

end Cache

/-- A highlighter that answers from a cache of its own. -/
def Highlighter.cached (inner : Highlighter) : Highlighter where
  tokenize code language :=
    ((Cache.empty Cache.defaultCapacity).tokenize inner code language).1
  supports := inner.supports

end RichMarkdown
