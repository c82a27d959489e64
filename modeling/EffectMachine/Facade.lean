import EffectMachine.Context

/-!
# Facades

A machine is used through facades, one for each context.  The cache of facades holds those requested
most recently, so that a context keeps its facade while fewer other contexts than the capacity are requested.
Main statements: `FacadeCache.serves_request`, a request returns a facade of its context, and
`FacadeCache.length_entries_request`, the cache stays within its capacity.
-/

namespace EffectMachine

/-- What a machine is used through under one context. -/
structure Facade where
  /-- Tells one facade from another. -/
  serial : Nat
  context : Context

/-- The facades that are kept, the one requested last first. -/
structure FacadeCache where
  capacity : Nat
  entries : List Facade := []
  /-- How many facades were made. -/
  made : Nat := 0

namespace FacadeCache

/-- Whether a facade belongs to a context. -/
def serves (context : Context) (facade : Facade) : Bool :=
  facade.context.identity = context.identity

/-- The facade of a context: the one that is kept, or a new one, for which the least recently requested ones
make room.  A cache without capacity keeps none. -/
def request (cache : FacadeCache) (context : Context) : Facade × FacadeCache :=
  match cache.entries.find? (serves context) with
  | some facade =>
    (facade,
      { cache with entries := facade :: cache.entries.filter fun entry => !serves context entry })
  | none =>
    let facade : Facade := ⟨cache.made, context⟩
    let entries :=
      if cache.capacity = 0 then cache.entries
      else facade :: cache.entries.take (cache.capacity - 1)
    (facade, { cache with entries, made := cache.made + 1 })

/-- The facade that is returned serves the context it was requested for. -/
theorem serves_request (cache : FacadeCache) (context : Context) :
    serves context (cache.request context).1 = true := by
  unfold request
  cases h : cache.entries.find? (serves context) with
  | none => simp [serves]
  | some facade => exact List.find?_some h

/-- The cache never holds more facades than its capacity. -/
theorem length_entries_request (cache : FacadeCache) (context : Context)
    (bounded : cache.entries.length ≤ cache.capacity) :
    (cache.request context).2.entries.length ≤ cache.capacity := by
  unfold request
  cases h : cache.entries.find? (serves context) with
  | none =>
    by_cases none : cache.capacity = 0
    · simpa [none] using bounded
    · simp only [none, if_false, List.length_cons, List.length_take]
      omega
  | some facade =>
    have member := List.mem_of_find?_eq_some h
    have found := List.find?_some h
    have fewer : (cache.entries.filter fun entry => !serves context entry).length <
        cache.entries.length := by
      rw [List.length_filter_lt_length_iff_exists]
      exact ⟨facade, member, by simp [found]⟩
    simp only [List.length_cons]
    omega

/-- What the context of a request is. -/
inductive Wanted where
  /-- The one context of a name. -/
  | named (name : String)
  /-- The context of a facade that was requested before. -/
  | ofFacade (index : Nat)
  /-- A new context, possibly with a name. -/
  | new (name : Option String)

/-- The context that is wanted, after some facades were requested. -/
def Wanted.context (visited : List Facade) : Wanted → Context
  | .named name => .named name
  | .ofFacade index => (visited[index]?.map Facade.context).getD (.blank 0)
  | .new (some name) => .fresh visited.length name
  | .new none => .blank visited.length

/-- How a requested facade relates to those requested before it. -/
structure Visit where
  index : Nat
  /-- The first earlier request that gave the same facade. -/
  sameAs : Option Nat
  /-- The first earlier request for the same context. -/
  sameContextAs : Option Nat
  /-- The value of the context. -/
  value : Value

/-- Compares a facade with those requested before it. -/
def visit (visited : List Facade) (facade : Facade) : Visit where
  index := visited.length
  sameAs := visited.findIdx? fun earlier => earlier.serial = facade.serial
  sameContextAs := visited.findIdx? (serves facade.context)
  value := facade.context.value

/-- Requests facades one after another, the facade of the machine itself being the first. -/
def visits (cache : FacadeCache) (visited : List Facade) : List Wanted → List Visit
  | [] => []
  | wanted :: rest =>
    let (facade, cache) := cache.request (wanted.context visited)
    visit visited facade :: cache.visits (visited ++ [facade]) rest

/-- The visits of a new machine with a cache of some capacity. -/
def explore (capacity : Nat) (wanted : List Wanted) : List Visit :=
  let (base, cache) := ({ capacity } : FacadeCache).request (.blank 0)
  cache.visits [base] wanted

end FacadeCache
end EffectMachine
