import EffectMachine.Facade
import Mathlib.Data.Finset.Card
import Mathlib.Data.Finset.Dedup
import Mathlib.Data.List.Find

/-!
# Recency of facades

The cache of facades forgets the least recently requested contexts, and no others.

* `FacadeCache.latest` are the last requests of all contexts, the most recent one first, and
  `FacadeCache.Recent.entries_eq` says that the cache holds the facades of the first of these, as many as its capacity
  allows.
* `FacadeCache.place_of_latest` finds a request among the latest ones: ahead of it stands one request for every other
  context that was requested since.
* `FacadeCache.recency` puts them together: a context keeps its facade exactly as long as fewer other contexts than the
  capacity are requested, and afterwards it is given one that nobody has had before.
-/

namespace EffectMachine

/-- A context that was requested, and the facade that it was given. -/
structure FacadeRequest where
  context : Context
  facade : Facade

namespace FacadeRequest

/-- Whether a request was one for a context. -/
def isFor (context : Context) (request : FacadeRequest) : Bool :=
  request.context.identity = context.identity

/-- The identity of the context that was requested. -/
def identity (request : FacadeRequest) : ContextId :=
  request.context.identity

theorem isFor_iff {context : Context} {request : FacadeRequest} :
    request.isFor context = true ↔ request.identity = context.identity := by
  simp [isFor, identity]

theorem isFor_eq_false_iff {context : Context} {request : FacadeRequest} :
    request.isFor context = false ↔ request.identity ≠ context.identity := by
  simp [isFor, identity]

end FacadeRequest

namespace FacadeCache

open FacadeRequest (isFor identity isFor_iff isFor_eq_false_iff)

/-- What was requested of a new cache of some capacity, and the cache after that.  The contexts and the requests stand
with the last one first. -/
def afterRequests (capacity : Nat) : List Context → List FacadeRequest × FacadeCache
  | [] => ([], { capacity })
  | context :: earlier =>
    let (history, cache) := afterRequests capacity earlier
    (⟨context, (cache.request context).1⟩ :: history, (cache.request context).2)

/-! ## The latest requests -/

/-- The last request of every context, the most recent one first. -/
def latest : List FacadeRequest → List FacadeRequest
  | [] => []
  | request :: earlier => request :: (latest earlier).filter fun other => !other.isFor request.context

section Latest

variable {history since before : List FacadeRequest} {given : FacadeRequest} {context : Context}

theorem mem_of_mem_latest {request : FacadeRequest} (hmem : request ∈ latest history) : request ∈ history := by
  induction history with
  | nil => cases hmem
  | cons last earlier ih =>
      rcases List.mem_cons.1 hmem with rfl | hearlier
      · exact List.mem_cons_self
      · exact List.mem_cons_of_mem _ (ih (List.mem_filter.1 hearlier).1)

/-- There is one latest request of every context. -/
theorem pairwise_latest (history : List FacadeRequest) :
    (latest history).Pairwise fun first second => first.identity ≠ second.identity := by
  induction history with
  | nil => exact .nil
  | cons last earlier ih =>
      refine .cons (fun other hmem => ?_) (ih.filter _)
      have hother : other.isFor last.context = false := by simpa using (List.mem_filter.1 hmem).2
      exact (isFor_eq_false_iff.1 hother).symm

/-- Every context that was requested has a latest request. -/
theorem mem_identity_latest {identity : ContextId} :
    identity ∈ (latest history).map FacadeRequest.identity ↔ identity ∈ history.map FacadeRequest.identity := by
  induction history with
  | nil => rfl
  | cons last earlier ih =>
      simp only [latest, List.map_cons, List.mem_cons, List.mem_map, List.mem_filter] at ih ⊢
      constructor
      · rintro (hlast | ⟨request, ⟨hmem, -⟩, rfl⟩)
        · exact .inl hlast
        · exact .inr (ih.1 ⟨request, hmem, rfl⟩)
      · rintro (hlast | hearlier)
        · exact .inl hlast
        · by_cases hsame : identity = last.identity
          · exact .inl hsame
          · obtain ⟨request, hmem, rfl⟩ := ih.2 hearlier
            refine .inr ⟨request, ⟨hmem, ?_⟩, rfl⟩
            simpa using isFor_eq_false_iff.2 hsame

/-- There are as many latest requests as contexts that were requested. -/
theorem length_latest (history : List FacadeRequest) :
    (latest history).length = (history.map identity).toFinset.card := by
  have hnodup : ((latest history).map identity).Nodup := List.pairwise_map.2 (pairwise_latest history)
  have hsame : ((latest history).map identity).toFinset = (history.map identity).toFinset := by
    ext identity
    simp only [List.mem_toFinset]
    exact mem_identity_latest
  rw [← hsame, List.toFinset_card_of_nodup hnodup, List.length_map]

/-- A request that is the last one of its context stands behind one request for every context that was requested since. -/
theorem place_of_latest (before since : List FacadeRequest) (hlast : ∀ request ∈ since, request.identity ≠ given.identity) :
    ∃ rest, latest (since ++ given :: before) = latest since ++ given :: rest := by
  induction since with
  | nil => exact ⟨_, rfl⟩
  | cons last earlier ih =>
      obtain ⟨rest, hrest⟩ := ih fun request hmem => hlast request (List.mem_cons_of_mem _ hmem)
      have hother : (!given.isFor last.context) = true := by
        simpa using isFor_eq_false_iff.2 (hlast last List.mem_cons_self).symm
      refine ⟨rest.filter fun other => !other.isFor last.context, ?_⟩
      simp only [List.cons_append, latest, hrest, List.filter_append, List.filter_cons, hother, if_true]

/-- Every request of the history is followed by one that is the last of its context. -/
theorem exists_last {request : FacadeRequest} (hmem : request ∈ history) (hfor : request.isFor context = true) :
    ∃ since given before, history = since ++ given :: before ∧ given.isFor context = true ∧
      ∀ other ∈ since, other.isFor context = false := by
  obtain ⟨given, since, before, hsince, hgiven, hhistory, -⟩ := List.exists_of_eraseP hmem hfor
  exact ⟨since, given, before, hhistory, hgiven, fun other hother => by simpa using hsince other hother⟩

/-- What was requested since the last request for a context is all that comes before any such request. -/
theorem takeWhile_eq_since (before : List FacadeRequest) (hgiven : given.isFor context = true)
    (hsince : ∀ other ∈ since, other.isFor context = false) :
    (since ++ given :: before).takeWhile (fun other => !other.isFor context) = since := by
  rw [List.takeWhile_append_of_pos fun other hmem => by simp [hsince other hmem],
    List.takeWhile_cons_of_neg (by simp [hgiven]), List.append_nil]

end Latest

/-! ## Keeping the latest requests -/

/-- Those among the first of a list that do not belong to a context, which one of them does. -/
theorem filter_take_of_mem {requests first last : List FacadeRequest} {found : FacadeRequest} {context : Context}
    {capacity : Nat} (hrequests : requests = first ++ found :: last) (hplace : first.length < capacity)
    (hfound : found.isFor context = true) (hfirst : ∀ other ∈ first, other.isFor context = false)
    (hlast : ∀ other ∈ last, other.isFor context = false) :
    (requests.take capacity).filter (fun other => !other.isFor context) =
      (requests.filter fun other => !other.isFor context).take (capacity - 1) := by
  have hfirstKept : first.filter (fun other => !other.isFor context) = first :=
    List.filter_eq_self.2 fun other hmem => by simp [hfirst other hmem]
  have hlastKept : last.filter (fun other => !other.isFor context) = last :=
    List.filter_eq_self.2 fun other hmem => by simp [hlast other hmem]
  have htakeKept (count : Nat) : (last.take count).filter (fun other => !other.isFor context) = last.take count :=
    List.filter_eq_self.2 fun other hmem => by simp [hlast other (List.mem_of_mem_take hmem)]
  obtain ⟨more, hmore⟩ : ∃ more, capacity = first.length + 1 + more := ⟨capacity - first.length - 1, by omega⟩
  subst hrequests hmore
  have hless : first.length + 1 + more - 1 = first.length + more := by omega
  rw [hless, Nat.add_assoc, List.take_length_add_append, List.filter_append, List.filter_append, hfirstKept,
    List.take_length_add_append, Nat.add_comm 1 more, List.take_succ_cons]
  simp [hfound, htakeKept, hlastKept]

/-- Those among the first of a list that do not belong to a context, which none of the first does. -/
theorem take_filter_of_not_mem {requests : List FacadeRequest} {context : Context} {capacity : Nat}
    (hnone : ∀ other ∈ requests.take capacity, other.isFor context = false) :
    (requests.filter fun other => !other.isFor context).take (capacity - 1) = requests.take (capacity - 1) := by
  have hkept : (requests.take capacity).filter (fun other => !other.isFor context) = requests.take capacity :=
    List.filter_eq_self.2 fun other hmem => by simp [hnone other hmem]
  have hsplit : requests.filter (fun other => !other.isFor context) =
      requests.take capacity ++ (requests.drop capacity).filter fun other => !other.isFor context := by
    conv => lhs; rw [← List.take_append_drop capacity requests]
    rw [List.filter_append, hkept]
  rw [hsplit]
  by_cases hlong : capacity ≤ requests.length
  · rw [List.take_append_of_le_length (by rw [List.length_take]; omega), List.take_take,
      Nat.min_eq_left (Nat.sub_le _ _)]
  · rw [List.drop_eq_nil_of_le (by omega), List.filter_nil, List.append_nil, List.take_take,
      Nat.min_eq_left (Nat.sub_le _ _)]

/-- How a cache and the requests made of it belong together. -/
structure Recent (capacity : Nat) (history : List FacadeRequest) (cache : FacadeCache) : Prop where
  capacity_eq : cache.capacity = capacity
  /-- The cache holds the facades of the latest requests. -/
  entries_eq : cache.entries = ((latest history).take capacity).map FacadeRequest.facade
  /-- A facade is one for the context that was requested. -/
  faithful : ∀ request ∈ history, request.facade.context.identity = request.identity
  /-- The facades were all made by the cache. -/
  made : ∀ request ∈ history, request.facade.serial < cache.made
  /-- A facade belongs to one context. -/
  shared : ∀ first ∈ history, ∀ second ∈ history, first.facade.serial = second.facade.serial →
    first.identity = second.identity

namespace Recent

variable {capacity : Nat} {history : List FacadeRequest} {cache : FacadeCache} {context : Context}

theorem initial (capacity : Nat) : Recent capacity [] { capacity } where
  capacity_eq := rfl
  entries_eq := by simp [latest]
  faithful := fun _ hmem => nomatch hmem
  made := fun _ hmem => nomatch hmem
  shared := fun _ hmem => nomatch hmem

/-- The facade of a request serves a context exactly if the request was one for it. -/
theorem serves_eq (recent : Recent capacity history cache) {request : FacadeRequest} (hmem : request ∈ history)
    (context : Context) : serves context request.facade = request.isFor context := by
  simp [serves, isFor, recent.faithful request hmem, identity]

/-- What the cache finds for a context is the facade of a latest request. -/
theorem find?_eq (recent : Recent capacity history cache) (context : Context) :
    cache.entries.find? (serves context) =
      (((latest history).take capacity).find? (isFor context)).map FacadeRequest.facade := by
  rw [recent.entries_eq, List.find?_map]
  congr 1
  refine List.find?_congr fun request hmem => ?_
  exact recent.serves_eq (mem_of_mem_latest (List.mem_of_mem_take hmem)) context

/-- A context whose last request is recent is given the facade of that request. -/
theorem request_of_near (recent : Recent capacity history cache) {since before : List FacadeRequest}
    {given : FacadeRequest} (hhistory : history = since ++ given :: before) (hgiven : given.isFor context = true)
    (hsince : ∀ other ∈ since, other.isFor context = false)
    (hnear : (since.map identity).toFinset.card < capacity) :
    cache.request context = (given.facade, { cache with
      entries := given.facade :: cache.entries.filter fun entry => !serves context entry }) := by
  have hidentity := isFor_iff.1 hgiven
  obtain ⟨rest, hlatest⟩ := place_of_latest before since
    fun other hmem => hidentity ▸ isFor_eq_false_iff.1 (hsince other hmem)
  rw [← length_latest] at hnear
  have hfind : ((latest history).take capacity).find? (isFor context) = some given := by
    obtain ⟨more, rfl⟩ : ∃ more, capacity = (latest since).length + (more + 1) :=
      ⟨capacity - (latest since).length - 1, by omega⟩
    have hnone : (latest since).find? (isFor context) = none := List.find?_eq_none.2 fun other hmem => by
      simp [hsince other (mem_of_mem_latest hmem)]
    rw [hhistory, hlatest, List.take_length_add_append, List.take_succ_cons, List.find?_append, hnone,
      Option.none_or, List.find?_cons_of_pos hgiven]
  simp [request, recent.find?_eq, hfind]

/-- A context whose last request is not recent, or that was never requested, is given a new facade. -/
theorem request_of_far (recent : Recent capacity history cache) (context : Context)
    (hfar : ∀ since given before, history = since ++ given :: before → given.isFor context = true →
      (∀ other ∈ since, other.isFor context = false) → capacity ≤ (since.map identity).toFinset.card) :
    (∀ request ∈ (latest history).take capacity, request.isFor context = false) ∧
      cache.request context = (⟨cache.made, context⟩, { cache with
        entries :=
          if capacity = 0 then cache.entries
          else ⟨cache.made, context⟩ :: cache.entries.take (capacity - 1)
        made := cache.made + 1 }) := by
  have hnone : ∀ request ∈ (latest history).take capacity, request.isFor context = false := by
    intro request hmem
    by_contra hfor
    rw [Bool.not_eq_false] at hfor
    obtain ⟨since, given, before, rfl, hgiven, hsince⟩ :=
      exists_last (mem_of_mem_latest (List.mem_of_mem_take hmem)) hfor
    have hplace := hfar since given before rfl hgiven hsince
    have hidentity := isFor_iff.1 hgiven
    obtain ⟨rest, hlatest⟩ := place_of_latest before since
      fun other hother => hidentity ▸ isFor_eq_false_iff.1 (hsince other hother)
    rw [← length_latest] at hplace
    rw [hlatest, List.take_append_of_le_length hplace] at hmem
    have hother := hsince request (mem_of_mem_latest (List.mem_of_mem_take hmem))
    exact absurd hfor (by simp [hother])
  have hfind : ((latest history).take capacity).find? (isFor context) = none :=
    List.find?_eq_none.2 fun request hmem => by simp [hnone request hmem]
  exact ⟨hnone, by simp [request, recent.find?_eq, hfind, recent.capacity_eq]⟩

/-- A context is given the facade of its last request if that is recent. -/
theorem near_or_far (capacity : Nat) (history : List FacadeRequest) (context : Context) :
    (∃ since given before, history = since ++ given :: before ∧ given.isFor context = true ∧
      (∀ other ∈ since, other.isFor context = false) ∧ (since.map identity).toFinset.card < capacity) ∨
    ∀ since given before, history = since ++ given :: before → given.isFor context = true →
      (∀ other ∈ since, other.isFor context = false) → capacity ≤ (since.map identity).toFinset.card := by
  by_cases hnear : ∃ since given before, history = since ++ given :: before ∧ given.isFor context = true ∧
      (∀ other ∈ since, other.isFor context = false) ∧ (since.map identity).toFinset.card < capacity
  · exact .inl hnear
  · refine .inr fun since given before hhistory hgiven hsince => ?_
    by_contra hless
    exact hnear ⟨since, given, before, hhistory, hgiven, hsince, by omega⟩

/-- After a request that is given a facade kept from before, the cache holds the facades of the latest requests. -/
theorem found (recent : Recent capacity history cache) {since before : List FacadeRequest} {given : FacadeRequest}
    (hhistory : history = since ++ given :: before) (hgiven : given.isFor context = true)
    (hsince : ∀ other ∈ since, other.isFor context = false)
    (hnear : (since.map identity).toFinset.card < capacity) :
    Recent capacity (⟨context, given.facade⟩ :: history) { cache with
      entries := given.facade :: cache.entries.filter fun entry => !serves context entry } where
  capacity_eq := recent.capacity_eq
  entries_eq := by
    have hidentity := isFor_iff.1 hgiven
    obtain ⟨rest, hlatest⟩ := place_of_latest before since
      fun other hmem => hidentity ▸ isFor_eq_false_iff.1 (hsince other hmem)
    have hrest : ∀ other ∈ rest, other.isFor context = false := by
      have hpairwise := pairwise_latest (since ++ given :: before)
      rw [hlatest, List.pairwise_append] at hpairwise
      intro other hmem
      exact isFor_eq_false_iff.2 (hidentity ▸ (List.rel_of_pairwise_cons hpairwise.2.1 hmem).symm)
    have hkept : cache.entries.filter (fun entry => !serves context entry) =
        (((latest history).take capacity).filter fun other => !other.isFor context).map FacadeRequest.facade := by
      rw [recent.entries_eq, List.filter_map]
      congr 1
      refine List.filter_congr fun request hmem => ?_
      simp [recent.serves_eq (mem_of_mem_latest (List.mem_of_mem_take hmem))]
    obtain ⟨more, rfl⟩ : ∃ more, capacity = more + 1 := ⟨capacity - 1, by omega⟩
    rw [hkept, filter_take_of_mem (hhistory ▸ hlatest) (by rwa [length_latest]) hgiven
      (fun other hmem => hsince other (mem_of_mem_latest hmem)) hrest]
    simp [latest]
  faithful := by
    refine List.forall_mem_cons.2 ⟨?_, recent.faithful⟩
    exact (recent.faithful given (by simp [hhistory])).trans (isFor_iff.1 hgiven)
  made := List.forall_mem_cons.2 ⟨recent.made given (by simp [hhistory]), recent.made⟩
  shared := by
    have hmem : given ∈ history := by simp [hhistory]
    have hsame := isFor_iff.1 hgiven
    refine List.forall_mem_cons.2 ⟨List.forall_mem_cons.2 ⟨fun _ => rfl, fun second hsecond hserial => ?_⟩,
      fun first hfirst => List.forall_mem_cons.2 ⟨fun hserial => ?_, recent.shared first hfirst⟩⟩
    · exact hsame.symm.trans (recent.shared given hmem second hsecond hserial)
    · exact (recent.shared first hfirst given hmem hserial).trans hsame

/-- After a request that is given a new facade, the cache holds the facades of the latest requests. -/
theorem renewed (recent : Recent capacity history cache)
    (hnone : ∀ request ∈ (latest history).take capacity, request.isFor context = false) :
    Recent capacity (⟨context, ⟨cache.made, context⟩⟩ :: history) { cache with
      entries :=
        if capacity = 0 then cache.entries
        else ⟨cache.made, context⟩ :: cache.entries.take (capacity - 1)
      made := cache.made + 1 } where
  capacity_eq := recent.capacity_eq
  entries_eq := by
    cases capacity with
    | zero => simp [recent.entries_eq]
    | succ more =>
        simp only [Nat.add_one_ne_zero, if_false, latest, List.take_succ_cons, List.map_cons, List.cons.injEq,
          true_and]
        have hkept := take_filter_of_not_mem hnone
        rw [Nat.add_sub_cancel] at hkept ⊢
        rw [hkept, recent.entries_eq, ← List.map_take, List.take_take, Nat.min_eq_left (Nat.le_succ _)]
  faithful := List.forall_mem_cons.2 ⟨rfl, recent.faithful⟩
  made := List.forall_mem_cons.2 ⟨Nat.lt_succ_self _, fun request hmem => Nat.lt_succ_of_lt (recent.made request hmem)⟩
  shared := by
    refine List.forall_mem_cons.2 ⟨List.forall_mem_cons.2 ⟨fun _ => rfl, fun second hsecond hserial => ?_⟩,
      fun first hfirst => List.forall_mem_cons.2 ⟨fun hserial => ?_, recent.shared first hfirst⟩⟩
    · exact absurd hserial.symm (Nat.ne_of_lt (recent.made second hsecond))
    · exact absurd hserial (Nat.ne_of_lt (recent.made first hfirst))

/-- Every request keeps the cache and the requests together. -/
theorem request (recent : Recent capacity history cache) (context : Context) :
    Recent capacity (⟨context, (cache.request context).1⟩ :: history) (cache.request context).2 := by
  rcases near_or_far capacity history context with ⟨since, given, before, hhistory, hgiven, hsince, hnear⟩ | hfar
  · rw [recent.request_of_near hhistory hgiven hsince hnear]
    exact recent.found hhistory hgiven hsince hnear
  · obtain ⟨hnone, hrequest⟩ := recent.request_of_far _ hfar
    rw [hrequest]
    exact recent.renewed hnone

end Recent

/-- A cache and the requests made of it belong together. -/
theorem recent_afterRequests (capacity : Nat) (contexts : List Context) :
    Recent capacity (afterRequests capacity contexts).1 (afterRequests capacity contexts).2 := by
  induction contexts with
  | nil => exact .initial capacity
  | cons context earlier ih => exact ih.request context

/-- All requests were made, in their order. -/
theorem context_afterRequests (capacity : Nat) (contexts : List Context) :
    (afterRequests capacity contexts).1.map FacadeRequest.context = contexts := by
  induction contexts with
  | nil => rfl
  | cons context earlier ih => exact congrArg (context :: ·) ih

/-! ## The main statement -/

/-- What the facades that a cache has given out, the last one first, and those that it holds have to do with what was
requested of it. -/
structure KeepsLatest (capacity : Nat) (history : List FacadeRequest) (cache : FacadeCache) : Prop where
  /-- The cache keeps within its capacity. -/
  bounded : cache.entries.length ≤ capacity
  /-- It holds one facade of a context. -/
  distinct : cache.entries.Pairwise fun first second => first.context.identity ≠ second.context.identity
  /-- It holds what was given to the latest requests, in their order. -/
  ordered : cache.entries = ((latest history).take capacity).map FacadeRequest.facade
  /-- Whoever requests a context is given a facade of that context. -/
  faithful : ∀ request ∈ history, request.facade.context.identity = request.context.identity
  /-- One facade is given to requests for one context only. -/
  shared : ∀ first ∈ history, ∀ second ∈ history, first.facade.serial = second.facade.serial →
    first.context.identity = second.context.identity
  /-- A context is given the facade of the last request for it if and only if fewer other contexts than the capacity
  were requested since. -/
  same : ∀ context since given before, history = since ++ given :: before →
    given.context.identity = context.identity → (∀ other ∈ since, other.context.identity ≠ context.identity) →
      ((cache.request context).1.serial = given.facade.serial ↔ (since.map identity).toFinset.card < capacity)
  /-- Otherwise it is given a facade that nobody was given before. -/
  other : ∀ context, (∀ since given before, history = since ++ given :: before →
      given.context.identity = context.identity → (∀ other ∈ since, other.context.identity ≠ context.identity) →
        capacity ≤ (since.map identity).toFinset.card) →
    ∀ request ∈ history, (cache.request context).1.serial ≠ request.facade.serial

/-- The cache of facades is one of the least recently requested contexts: whatever was requested of a new cache, that
of the machine itself first, it keeps the latest of it. -/
theorem recency (capacity : Nat) (contexts : List Context) :
    (afterRequests capacity contexts).1.map FacadeRequest.context = contexts ∧
      KeepsLatest capacity (afterRequests capacity contexts).1 (afterRequests capacity contexts).2 := by
  refine ⟨context_afterRequests capacity contexts, ?_⟩
  have recent := recent_afterRequests capacity contexts
  generalize (afterRequests capacity contexts).1 = history, (afterRequests capacity contexts).2 = cache at recent
  have hnew : ∀ context, (∀ since given before, history = since ++ given :: before →
      given.context.identity = context.identity → (∀ other ∈ since, other.context.identity ≠ context.identity) →
        capacity ≤ (since.map identity).toFinset.card) → (cache.request context).1.serial = cache.made := by
    intro context hfar
    have hrequest := (recent.request_of_far context fun since given before hhistory hgiven hsince =>
      hfar since given before hhistory (isFor_iff.1 hgiven) fun other hmem =>
        isFor_eq_false_iff.1 (hsince other hmem)).2
    rw [hrequest]
  refine ⟨?_, ?_, recent.entries_eq, recent.faithful, recent.shared, ?_, ?_⟩
  · rw [recent.entries_eq, List.length_map, List.length_take]
    exact Nat.min_le_left _ _
  · rw [recent.entries_eq, List.pairwise_map]
    refine ((pairwise_latest history).sublist (List.take_sublist _ _)).imp_of_mem ?_
    intro first second hfirst hsecond hother
    have hgiven {request : FacadeRequest} (hmem : request ∈ (latest history).take capacity) :=
      recent.faithful request (mem_of_mem_latest (List.mem_of_mem_take hmem))
    rwa [hgiven hfirst, hgiven hsecond]
  · intro context since given before hhistory hgiven hsince
    constructor
    · intro hserial
      by_contra hmany
      have hmade := hnew context fun since' given' before' hhistory' hgiven' hsince' => ?_
      · have hless := recent.made given (by simp [hhistory])
        omega
      · have hsame := takeWhile_eq_since before' (isFor_iff.2 hgiven')
          fun other hmem => isFor_eq_false_iff.2 (hsince' other hmem)
        rw [← hhistory', hhistory, takeWhile_eq_since before (isFor_iff.2 hgiven)
          fun other hmem => isFor_eq_false_iff.2 (hsince other hmem)] at hsame
        exact hsame ▸ Nat.le_of_not_lt hmany
    · intro hnear
      rw [recent.request_of_near hhistory (isFor_iff.2 hgiven)
        (fun other hmem => isFor_eq_false_iff.2 (hsince other hmem)) hnear]
  · intro context hfar request hmem
    rw [hnew context hfar]
    exact (Nat.ne_of_lt (recent.made request hmem)).symm

end FacadeCache
end EffectMachine
