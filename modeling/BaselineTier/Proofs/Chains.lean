/-
  BaselineTier.Proofs.Chains — stub chains over the whole life of a method.

  Stubs name each other by their place in one store, which all sites of a method share. What
  the answers to the calls promise is kept beside the store, site by site and without any
  linkage (`ChainRecord`): the fallback that came with the site, and the stubs that were put in
  front of it. Store and records agree (`Chained`) if following the links from a site's first
  stub visits the stubs of its record and then stops (`StubStore.Walks`), and the places of all
  records together are those of the store, each once. A new site and a new stub keep this
  (`Chained.openSite`, `Chained.putFront`), and calls that fail change nothing.

  Places are kept in 32 bits, so all this is as long as the store has no more stubs than that.
  Links lead to earlier stubs in any case, so every walk ends (`Linked.walks`), but a stub
  behind the first 2 ^ 32 is on none. The chains are those of the records exactly as long as
  there are no more stubs (`stub_chains_stay_wellFormed`), and with room for one more the links
  come to miss one (`stub_beyond_the_links`).
-/

import BaselineTier.Proofs.Running
import BaselineTier.Tier
import Mathlib.Data.List.Nodup
import Mathlib.Data.List.Pairwise

namespace BaselineTier

variable {β : Type}

/-! ## Following the links -/

inductive StubStore.Walks (s : StubStore β) : Option Nat → List (Nat × Stub β) → Prop
  | stop : Walks s none []
  | visit {id : Nat} {stub : Stub β} {rest : List (Nat × Stub β)} :
      s.get? id = some stub → Walks s stub.next rest → Walks s (some id) ((id, stub) :: rest)

namespace StubStore

variable {s s' : StubStore β} {head : Option Nat} {chain : List (Nat × Stub β)}

/-- The walk is found with as many steps as there are stubs on it. -/
theorem Walks.chainFrom (h : s.Walks head chain) {fuel : Nat} (hfuel : chain.length ≤ fuel) :
    s.chainFrom fuel head = chain := by
  induction h generalizing fuel with
  | stop => cases fuel <;> rfl
  | visit hstub _ ih =>
    cases fuel with
    | zero => exact absurd hfuel (Nat.not_succ_le_zero _)
    | succ fuel => rw [StubStore.chainFrom, hstub]; simp only [ih (Nat.le_of_succ_le_succ hfuel)]

/-- A stub that was added has the place behind the others, of which 32 bits are its number, and nothing else has
    changed. -/
theorem add_ok {stub : Stub β} {id : Nat} (h : s.add stub = .ok (id, s')) :
    id = s.size % 2 ^ 32 ∧ s.size < s.limit ∧ s' = { s with stubs := s.stubs.push stub } := by
  unfold add at h
  split at h
  · cases h
    exact ⟨rfl, ‹_›, rfl⟩
  · cases h

/-- A stub that is added lies on no walk. -/
theorem Walks.push (h : s.Walks head chain) (stub : Stub β) :
    Walks { s with stubs := s.stubs.push stub } head chain := by
  induction h with
  | stop => exact .stop
  | visit hstub _ ih => exact .visit (Draft.getElem?_push_of_some stub hstub) ih

end StubStore

/-! ## Records -/

/-- What the calls for a site have answered: its fallback, and the stubs in front of it, newest first, each with its
    place. -/
structure ChainRecord (β : Type) where
  fallback : Nat × β
  added : List (Nat × β) := []

namespace ChainRecord

def stubs (r : ChainRecord β) : List (Nat × StubRole × β) :=
  r.added.map (fun a => (a.1, .specialized, a.2)) ++ [(r.fallback.1, .fallback, r.fallback.2)]

def add (id : Nat) (body : β) (r : ChainRecord β) : ChainRecord β := { r with added := (id, body) :: r.added }

theorem stubs_add (id : Nat) (body : β) (r : ChainRecord β) :
    (r.add id body).stubs = (id, .specialized, body) :: r.stubs := rfl

/-- The stubs of all records after one was added to a site that there is. -/
theorem perm_flatMap_add (id : Nat) (body : β) {rs : List (ChainRecord β)} {k : Nat} (hk : k < rs.length) :
    ((rs.modify k (add id body)).flatMap stubs).Perm ((id, .specialized, body) :: rs.flatMap stubs) := by
  induction rs generalizing k with
  | nil => exact absurd hk (Nat.not_lt_zero _)
  | cons r rs ih =>
    cases k with
    | zero => exact .refl _
    | succ k =>
      rw [List.modify_succ_cons, List.flatMap_cons, List.flatMap_cons]
      exact ((ih (Nat.lt_of_succ_lt_succ hk)).append_left r.stubs).trans List.perm_middle

end ChainRecord

def Stub.entry (p : Nat × Stub β) : Nat × StubRole × β := (p.1, p.2.role, p.2.body)

structure Chained (sites : Array Site) (store : StubStore β) (rs : List (ChainRecord β)) : Prop where
  size : rs.length = sites.size
  walks : ∀ {k : Nat} {r : ChainRecord β}, rs[k]? = some r →
    ∃ site chain, sites[k]? = some site ∧ store.Walks (some site.head) chain ∧ chain.map Stub.entry = r.stubs
  places : ((rs.flatMap ChainRecord.stubs).map Prod.fst).Perm (List.range store.size)

namespace Chained

variable {sites : Array Site} {store store' : StubStore β} {rs : List (ChainRecord β)}

theorem empty (limit : Nat) : Chained #[] ({ limit } : StubStore β) [] := ⟨rfl, nofun, .refl _⟩

theorem range_push (store : StubStore β) (stub : Stub β) :
    List.range (StubStore.size { store with stubs := store.stubs.push stub }) = List.range store.size ++
      [store.size] := by
  simp only [StubStore.size, Array.size_push, List.range_succ]

/-- A new site comes with its fallback. -/
theorem openSite (h : Chained sites store rs) (hfew : store.size < 2 ^ 32) {body : β} {head : Nat}
    (hadd : store.add ⟨.fallback, body, none⟩ = .ok (head, store')) {site : Site} (hsite : site.head = head) :
    Chained (sites.push site) store' (rs ++ [{ fallback := (store.size, body) }]) := by
  obtain ⟨hid, _, rfl⟩ := StubStore.add_ok hadd
  rw [Nat.mod_eq_of_lt hfew] at hid
  subst hid
  refine ⟨by simp [h.size], fun {k r} hr => ?_, ?_⟩
  · rw [List.getElem?_append] at hr
    split at hr
    · obtain ⟨old, chain, hold, hwalks, hstubs⟩ := h.walks hr
      exact ⟨old, chain, Draft.getElem?_push_of_some site hold, hwalks.push _, hstubs⟩
    -- The new record, which stands behind the others as the site does.
    · rename_i hk
      obtain ⟨hk', rfl⟩ : k - rs.length = 0 ∧ _ = r := by simpa [List.getElem?_singleton] using hr
      have hk : k = sites.size := by have := h.size; omega
      subst hk
      refine ⟨site, [(store.size, ⟨.fallback, body, none⟩)], Array.getElem?_push_size, ?_, rfl⟩
      rw [hsite]
      exact .visit Array.getElem?_push_size .stop
  · rw [range_push, List.flatMap_append, List.map_append]
    exact h.places.append (.refl _)

/-- A new stub comes before those that its site had, and no other site is touched. -/
theorem putFront (h : Chained sites store rs) (hfew : store.size < 2 ^ 32) {k : Nat} {site : Site}
    (hsite : sites[k]? = some site) {body : β} {id : Nat}
    (hadd : store.add ⟨.specialized, body, some site.head⟩ = .ok (id, store')) :
    Chained (sites.modify k fun site => { site with head := id }) store' (rs.modify k (ChainRecord.add id body)) := by
  obtain ⟨hid, _, rfl⟩ := StubStore.add_ok hadd
  rw [Nat.mod_eq_of_lt hfew] at hid
  subst hid
  refine ⟨by simp [h.size], fun {j r} hr => ?_, ?_⟩
  · rw [List.getElem?_modify] at hr
    obtain ⟨r, hr', rfl⟩ := Option.map_eq_some_iff.mp hr
    obtain ⟨old, chain, hold, hwalks, hstubs⟩ := h.walks hr'
    by_cases hjk : k = j
    · subst hjk
      rw [hsite] at hold
      cases hold
      rw [if_pos rfl, ChainRecord.stubs_add, ← hstubs]
      refine ⟨{ site with head := store.size },
        (store.size, ⟨.specialized, body, some site.head⟩) :: chain, ?_, ?_, rfl⟩
      · rw [Array.getElem?_modify, if_pos rfl, hsite]
        rfl
      · exact .visit Array.getElem?_push_size (hwalks.push _)
    · rw [if_neg hjk]
      refine ⟨old, chain, ?_, hwalks.push _, hstubs⟩
      rw [Array.getElem?_modify, if_neg hjk, hold]
  · have hk : k < rs.length := by
      rw [h.size]
      exact (Array.getElem?_eq_some_iff.mp hsite).1
    rw [range_push]
    have hadded := (ChainRecord.perm_flatMap_add store.size body hk).map Prod.fst
    exact hadded.trans ((h.places.cons _).trans (List.perm_append_singleton _ _).symm)

/-! ## What the records tell -/

variable {k : Nat} {r : ChainRecord β} {site : Site}

/-- No chain is longer than the store, so none is cut short. -/
theorem chain_eq (h : Chained sites store rs) (hr : rs[k]? = some r) (hsite : sites[k]? = some site) :
    store.Walks (some site.head) (store.chain site.head) ∧ (store.chain site.head).map Stub.entry = r.stubs := by
  obtain ⟨site', chain, hsite', hwalks, hstubs⟩ := h.walks hr
  cases hsite.symm.trans hsite'
  -- The stubs of one record are among those of all, and those are as many as the store has.
  have hlength : chain.length ≤ store.size := by
    have htotal := h.places.length_eq
    rw [List.length_map, List.length_range] at htotal
    rw [← htotal, ← List.length_map (f := Stub.entry), hstubs, List.flatMap_def]
    exact (List.sublist_flatten_of_mem (List.mem_map_of_mem (List.mem_of_getElem? hr))).length_le
  rw [StubStore.chain, hwalks.chainFrom hlength]
  exact ⟨hwalks, hstubs⟩

end Chained

/-! ## Links that lead to earlier stubs -/

/-- Links and first stubs are numbers of 32 bits, and a link leads to an earlier stub. -/
structure Linked (sites : Array Site) (store : StubStore β) : Prop where
  heads : ∀ {k : Nat} {site : Site}, sites[k]? = some site → site.head < store.size ∧ site.head < 2 ^ 32
  links : ∀ {id next : Nat} {stub : Stub β}, store.get? id = some stub → stub.next = some next → next < id ∧
    next < 2 ^ 32

namespace Linked

variable {sites : Array Site} {store store' : StubStore β} {id : Nat}

theorem empty (limit : Nat) : Linked #[] ({ limit } : StubStore β) := by
  refine ⟨fun hsite => ?_, fun hstub => ?_⟩
  · rw [Array.getElem?_empty] at hsite
    cases hsite
  · rw [StubStore.get?, Array.getElem?_empty] at hstub
    cases hstub

/-- A new stub is linked to one that there is. -/
theorem push (h : Linked sites store) {stub : Stub β}
    (hnext : ∀ next, stub.next = some next → next < store.size ∧ next < 2 ^ 32) :
    Linked sites { store with stubs := store.stubs.push stub } := by
  refine ⟨fun hsite => ?_, fun {id next old} hold hlink => ?_⟩
  · obtain ⟨hhead, hnarrow⟩ := h.heads hsite
    exact ⟨Nat.lt_trans hhead (by simp [StubStore.size]), hnarrow⟩
  · rw [StubStore.get?, Array.getElem?_push] at hold
    split at hold
    · rename_i hid
      cases hold
      rw [hid]
      exact hnext next hlink
    · exact h.links hold hlink

theorem mod_lt_size_push (store : StubStore β) (stub : Stub β) :
    store.size % 2 ^ 32 < StubStore.size { store with stubs := store.stubs.push stub } := by
  have hsize : StubStore.size { store with stubs := store.stubs.push stub } = store.size + 1 := Array.size_push ..
  rw [hsize]
  exact Nat.lt_succ_of_le (Nat.mod_le _ _)

theorem openSite (h : Linked sites store) {body : β} (hadd : store.add ⟨.fallback, body, none⟩ = .ok (id, store'))
    {site : Site} (hsite : site.head = id) : Linked (sites.push site) store' := by
  obtain ⟨rfl, _, rfl⟩ := StubStore.add_ok hadd
  have hnone : ∀ next, (⟨.fallback, body, none⟩ : Stub β).next = some next → next < store.size ∧ next < 2 ^ 32 := nofun
  have hpushed := h.push hnone
  refine ⟨fun {k old} hold => ?_, hpushed.links⟩
  rw [Array.getElem?_push] at hold
  split at hold
  · cases hold
    rw [hsite]
    exact ⟨mod_lt_size_push store _, Nat.mod_lt _ (by decide)⟩
  · exact hpushed.heads hold

theorem putFront (h : Linked sites store) {k : Nat} {site : Site} (hsite : sites[k]? = some site) {body : β}
    (hadd : store.add ⟨.specialized, body, some site.head⟩ = .ok (id, store')) :
    Linked (sites.modify k fun site => { site with head := id }) store' := by
  obtain ⟨rfl, _, rfl⟩ := StubStore.add_ok hadd
  have hnext : ∀ next, (⟨.specialized, body, some site.head⟩ : Stub β).next = some next →
      next < store.size ∧ next < 2 ^ 32 := by
    rintro _ ⟨⟩
    exact h.heads hsite
  have hpushed := h.push hnext
  refine ⟨fun {j old} hold => ?_, hpushed.links⟩
  rw [Array.getElem?_modify] at hold
  split at hold
  · obtain ⟨_, _, rfl⟩ := Option.map_eq_some_iff.mp hold
    exact ⟨mod_lt_size_push store _, Nat.mod_lt _ (by decide)⟩
  · exact hpushed.heads hold

/-- From every stub there is a walk, no longer than the stubs up to it, along numbers of 32 bits. -/
theorem exists_walk (h : Linked sites store) (hid : id < store.size) (hnarrow : id < 2 ^ 32) :
    ∃ chain, store.Walks (some id) chain ∧ chain.length ≤ id + 1 ∧ ∀ p ∈ chain, p.1 < 2 ^ 32 := by
  -- A link leads to a smaller number.
  induction id using Nat.strongRecOn with
  | ind id ih =>
    have hstub : store.get? id = some store.stubs[id] := Array.getElem?_eq_getElem hid
    cases hnext : store.stubs[id].next with
    | none =>
      refine ⟨[(id, store.stubs[id])], .visit hstub (by rw [hnext]; exact .stop), by simp, fun p hp => ?_⟩
      rw [List.mem_singleton.mp hp]
      exact hnarrow
    | some next =>
      obtain ⟨hlt, hnarrow'⟩ := h.links hstub hnext
      obtain ⟨chain, hwalks, hlength, hplaces⟩ := ih next hlt (Nat.lt_trans hlt hid) hnarrow'
      refine ⟨(id, store.stubs[id]) :: chain, .visit hstub (by rw [hnext]; exact hwalks), ?_, fun p hp => ?_⟩
      · rw [List.length_cons]
        omega
      · rcases List.mem_cons.mp hp with rfl | hp
        · exact hnarrow
        · exact hplaces p hp

/-- The walk from a site's first stub ends, and is the chain of the site. -/
theorem walks (h : Linked sites store) {k : Nat} {site : Site} (hsite : sites[k]? = some site) :
    store.Walks (some site.head) (store.chain site.head) ∧ ∀ p ∈ store.chain site.head, p.1 < 2 ^ 32 := by
  obtain ⟨hhead, hnarrow⟩ := h.heads hsite
  obtain ⟨chain, hwalks, hlength, hplaces⟩ := h.exists_walk hhead hnarrow
  rw [StubStore.chain, hwalks.chainFrom (Nat.le_trans hlength hhead)]
  exact ⟨hwalks, hplaces⟩

end Linked

/-- Going through a list by index. -/
theorem flatMap_range_eq {α γ : Type} {xs : List α} {f : α → List γ} {g : Nat → List γ} {n : Nat}
    (h : ∀ (k : Nat) (x : α), xs[k]? = some x → g (n + k) = f x) :
    (List.range' n xs.length).flatMap g = xs.flatMap f := by
  induction xs generalizing n with
  | nil => rfl
  | cons x xs ih =>
    rw [List.length_cons, List.range'_succ, List.flatMap_cons, List.flatMap_cons, ← h 0 x rfl, ih fun k y hk => ?_]
    · rfl
    · rw [Nat.add_assoc, Nat.add_comm 1 k]
      exact h (k + 1) y hk

namespace Method

variable {m : Method β} {rs : List (ChainRecord β)}

/-- The chains of the method's sites are those of the records. Each walk along the links ends, having visited the stubs
    that were put in front of the site, newest first, and then the site's fallback. No two sites share a stub, and going
    through all chains visits every stub of the store once. -/
structure WellChained (m : Method β) (rs : List (ChainRecord β)) : Prop where
  sites : rs.length = m.sites.size
  walks : ∀ {k : Nat} {r : ChainRecord β}, rs[k]? = some r → ∃ site, m.site? k = some site ∧
    m.store.Walks (some site.head) (m.chain k) ∧ (m.chain k).map Stub.entry = r.stubs
  disjoint : ∀ {j k : Nat}, j ≠ k → ∀ p ∈ m.chain j, ∀ q ∈ m.chain k, p.1 ≠ q.1
  count : m.trace.length = m.store.size
  once : (m.trace.map fun visit => visit.2.1).Perm (List.range m.store.size)
  agrees : ∀ k, (m.trace.filter (·.1 == k)).map Prod.snd = m.chain k

theorem chain_eq_nil {k : Nat} (h : m.sites.size ≤ k) : m.chain k = [] := by
  rw [chain, site?, Array.getElem?_eq_none h]

theorem places_trace (m : Method β) :
    (m.trace.map fun visit => visit.2.1) = (List.range m.sites.size).flatMap fun k => (m.chain k).map Prod.fst := by
  rw [trace, List.map_flatMap]
  simp only [List.map_map]
  rfl

theorem flatMap_range_single {α : Type} (xs : List α) (k n : Nat) :
    ((List.range n).flatMap fun j => if j = k then xs else []) = if k < n then xs else [] := by
  induction n with
  | zero => rfl
  | succ n ih =>
    rw [List.range_succ, List.flatMap_append, ih, List.flatMap_singleton]
    by_cases hlt : k < n
    · rw [if_pos hlt, if_neg (Nat.ne_of_gt hlt), if_pos (Nat.lt_succ_of_lt hlt), List.append_nil]
    · by_cases heq : n = k
      · rw [if_neg hlt, if_pos heq, if_pos (by omega), List.nil_append]
      · rw [if_neg hlt, if_neg heq, if_neg (by omega), List.nil_append]

theorem trace_agrees (m : Method β) (k : Nat) : (m.trace.filter (·.1 == k)).map Prod.snd = m.chain k := by
  have hsite (j : Nat) : ((((m.chain j).map fun p => (j, p.1, p.2)).filter (·.1 == k)).map Prod.snd) =
      if j = k then m.chain k else [] := by
    by_cases hjk : j = k
    · subst hjk
      simp [List.filter_map, Function.comp_def]
    · simp [List.filter_map, Function.comp_def, hjk]
  have htrace : (m.trace.filter (·.1 == k)).map Prod.snd =
      (List.range m.sites.size).flatMap fun j => if j = k then m.chain k else [] := by
    rw [trace, List.filter_flatMap, List.map_flatMap]
    exact List.flatMap_congr fun j _ => hsite j
  rw [htrace, flatMap_range_single]
  split
  · rfl
  · exact (chain_eq_nil (by omega)).symm

/-- Where every place is visited once, no two chains have one in common. -/
theorem disjoint_of_nodup (h : (m.trace.map fun visit => visit.2.1).Nodup) {j k : Nat} (hne : j ≠ k) :
    ∀ p ∈ m.chain j, ∀ q ∈ m.chain k, p.1 ≠ q.1 := by
  intro p hp q hq heq
  have hmem {l : Nat} {x : Nat × Stub β} (hx : x ∈ m.chain l) : l ∈ List.range m.sites.size := by
    refine List.mem_range.mpr (Nat.lt_of_not_le fun hle => ?_)
    rw [chain_eq_nil hle] at hx
    cases hx
  rw [places_trace, List.nodup_flatMap] at h
  have : Std.Symm (Function.onFun List.Disjoint fun l => (m.chain l).map Prod.fst) :=
    ⟨fun _ _ hdisjoint _ hleft hright => hdisjoint hright hleft⟩
  have hdisjoint := h.2.forall (hmem hp) (hmem hq) hne
  exact hdisjoint (List.mem_map_of_mem hp) (heq ▸ List.mem_map_of_mem hq)

theorem wellChained_of_chained (h : Chained m.sites m.store rs) : m.WellChained rs := by
  have hchain {k : Nat} {r : ChainRecord β} (hr : rs[k]? = some r) : ∃ site, m.site? k = some site ∧
      m.store.Walks (some site.head) (m.chain k) ∧ (m.chain k).map Stub.entry = r.stubs := by
    obtain ⟨site, _, hsite, _⟩ := h.walks hr
    have heq : m.chain k = m.store.chain site.head := by rw [chain, site?, hsite]
    obtain ⟨hwalks, hstubs⟩ := h.chain_eq hr hsite
    rw [heq]
    exact ⟨site, hsite, hwalks, hstubs⟩
  have hplaces : (m.trace.map fun visit => visit.2.1).Perm (List.range m.store.size) := by
    have hrecords : (List.range m.sites.size).flatMap (fun k => (m.chain k).map Prod.fst) =
        (rs.flatMap ChainRecord.stubs).map Prod.fst := by
      rw [← h.size, List.range_eq_range', List.map_flatMap]
      refine flatMap_range_eq fun k r hr => ?_
      obtain ⟨_, _, _, hstubs⟩ := hchain hr
      rw [Nat.zero_add, ← hstubs, List.map_map]
      rfl
    rw [places_trace, hrecords]
    exact h.places
  refine ⟨h.size, hchain, disjoint_of_nodup (hplaces.nodup_iff.mpr List.nodup_range), ?_, hplaces, m.trace_agrees⟩
  · rw [← List.length_map (f := fun visit => visit.2.1), hplaces.length_eq, List.length_range]

/-- Where the chains are those of the records, there are no more stubs than 32 bits number. -/
theorem WellChained.size_le (h : m.WellChained rs) (hlinked : Linked m.sites m.store) : m.store.size ≤ 2 ^ 32 := by
  refine Nat.le_of_not_lt fun hgreat => ?_
  have hmem : 2 ^ 32 ∈ m.trace.map fun visit => visit.2.1 := h.once.mem_iff.mpr (List.mem_range.mpr hgreat)
  rw [places_trace] at hmem
  obtain ⟨k, hk, hplace⟩ := List.mem_flatMap.mp hmem
  obtain ⟨p, hp, heq⟩ := List.mem_map.mp hplace
  have hk := List.mem_range.mp hk
  have hsite : m.site? k = some m.sites[k] := Array.getElem?_eq_getElem hk
  rw [chain, hsite] at hp
  exact absurd ((hlinked.walks hsite).2 p hp) (by rw [heq]; exact Nat.lt_irrefl _)

end Method

/-! ## Requests -/

/-- Links lead to earlier stubs, there are no more sites and stubs than there may be, and as long as 32 bits number the
    stubs, sites and stubs are those of the records. -/
structure Bounded (maxSites maxStubs : Nat) (sites : Array Site) (store : StubStore β) (rs : List (ChainRecord β)) :
    Prop where
  chained : store.size ≤ 2 ^ 32 → Chained sites store rs
  linked : Linked sites store
  limit : store.limit = maxStubs
  sites_le : sites.size ≤ maxSites
  stubs_le : store.size ≤ maxStubs

namespace SiteTable

/-- A request for a site fails for one of three causes and then leaves sites and stubs alone; otherwise there is a new
    site, whose only stub is the body that the factory gave. -/
theorem allocate_cases (t : SiteTable β) (factory : Factory β) (kind : SiteKind) (pc : Nat) :
    (∃ e requests, (t.maxSites ≤ t.size ∨ factory t.requests kind = none ∨ t.store.limit ≤ t.store.size) ∧
      t.allocate factory kind pc = (.error e, { t with requests })) ∨
    (∃ body store, t.size < t.maxSites ∧ factory t.requests kind = some body ∧
      t.store.add ⟨.fallback, body, none⟩ = .ok (t.store.size % 2 ^ 32, store) ∧
      t.allocate factory kind pc = (.ok (t.size % 2 ^ 32), { t with
        requests := t.requests + 1, store
        sites := t.sites.push { pc := UInt32.ofNat pc, kind, head := t.store.size % 2 ^ 32 } })) := by
  unfold allocate
  split
  · exact .inl ⟨_, _, .inl ‹_›, rfl⟩
  · split
    · exact .inl ⟨_, _, .inr (.inl ‹_›), rfl⟩
    · split
      · refine .inl ⟨_, _, .inr (.inr ?_), rfl⟩
        rename_i hadd
        unfold StubStore.add at hadd
        split at hadd
        · cases hadd
        · omega
      · rename_i hadd
        obtain ⟨rfl, _⟩ := StubStore.add_ok hadd
        exact .inr ⟨_, _, by omega, ‹_›, hadd, rfl⟩

def register (factory : Factory β) (p : SiteTable β × List (ChainRecord β)) (request : SiteKind × Nat) :
    SiteTable β × List (ChainRecord β) :=
  match factory p.1.requests request.1, p.1.allocate factory request.1 request.2 with
  | some body, (.ok _, t) => (t, p.2 ++ [{ fallback := (p.1.store.size, body) }])
  | _, (_, t) => (t, p.2)

end SiteTable

namespace Method

/-- A new stub needs a site and room in the store. -/
theorem prepend_error {m : Method β} {index : Nat} {body : β} {e : CompileError} (h : m.prepend index body = .error e) :
    m.sites.size ≤ index ∨ m.store.limit ≤ m.store.size := by
  unfold prepend at h
  split at h
  · exact .inl (Array.getElem?_eq_none_iff.mp ‹_›)
  · rename_i site hsite
    by_cases hroom : m.store.size < m.store.limit
    · rw [StubStore.add, if_pos hroom] at h
      cases h
    · exact .inr (Nat.le_of_not_lt hroom)

/-- A new stub comes first in its chain, and the site leads to it. -/
theorem prepend_ok {m m' : Method β} {index id : Nat} {body : β} (h : m.prepend index body = .ok (id, m')) :
    ∃ site store, m.site? index = some site ∧ m.store.add ⟨.specialized, body, some site.head⟩ = .ok (id, store) ∧
      m' = { m with store, sites := m.sites.modify index fun site => { site with head := id } } := by
  unfold prepend at h
  split at h
  · cases h
  · rename_i site hsite
    cases hadd : m.store.add ⟨.specialized, body, some site.head⟩ with
    | error e => rw [hadd] at h; cases h
    | ok answer =>
      rw [hadd] at h
      cases h
      exact ⟨site, answer.2, hsite, hadd, rfl⟩

def extend (p : Method β × List (ChainRecord β)) (request : Nat × β) : Method β × List (ChainRecord β) :=
  match p.1.prepend request.1 request.2 with
  | .ok (id, m) => (m, p.2.modify request.1 (ChainRecord.add id request.2))
  | .error _ => p

/-- A method after its life so far: sites were asked for while it was compiled, each for a kind and an offset, and later
    stubs were put in front of the chains of sites. With it the records of the requests that were granted. -/
def life (factory : Factory β) (maxSites maxStubs : Nat) (requests : List (SiteKind × Nat)) (code : LinkedCode)
    (stubs : List (Nat × β)) : Method β × List (ChainRecord β) :=
  let opened := requests.foldl (SiteTable.register factory) (.empty maxSites maxStubs, [])
  stubs.foldl extend (.make code opened.1, opened.2)

end Method

/-- The records follow a stub that is put in front, as long as 32 bits number the stubs. -/
theorem Chained.extend {p : Method β × List (ChainRecord β)}
    (h : p.1.store.size ≤ 2 ^ 32 → Chained p.1.sites p.1.store p.2) (request : Nat × β)
    (hfew : (Method.extend p request).1.store.size ≤ 2 ^ 32) :
    Chained (Method.extend p request).1.sites (Method.extend p request).1.store (Method.extend p request).2 := by
  unfold Method.extend at hfew ⊢
  split at hfew
  · rename_i heq
    obtain ⟨site, store, hsite, hadd, rfl⟩ := Method.prepend_ok heq
    have hlt : p.1.store.size < 2 ^ 32 := by
      obtain ⟨_, _, rfl⟩ := StubStore.add_ok hadd
      exact Nat.lt_of_lt_of_eq (Nat.lt_of_succ_le (Nat.le_trans (Nat.le_of_eq (Array.size_push ..).symm) hfew)) rfl
    exact (h (Nat.le_of_lt hlt)).putFront hlt hsite hadd
  · exact h hfew

theorem Chained.extendAll {p : Method β × List (ChainRecord β)}
    (h : p.1.store.size ≤ 2 ^ 32 → Chained p.1.sites p.1.store p.2) (stubs : List (Nat × β))
    (hfew : (stubs.foldl Method.extend p).1.store.size ≤ 2 ^ 32) :
    Chained (stubs.foldl Method.extend p).1.sites (stubs.foldl Method.extend p).1.store
      (stubs.foldl Method.extend p).2 := by
  induction stubs generalizing p with
  | nil => exact h hfew
  | cons request stubs ih => exact ih (Chained.extend h request) hfew

namespace Bounded

variable {maxSites maxStubs : Nat} {sites : Array Site} {store store' : StubStore β} {rs : List (ChainRecord β)}

theorem empty (maxSites maxStubs : Nat) : Bounded maxSites maxStubs #[] ({ limit := maxStubs } : StubStore β) [] :=
  ⟨fun _ => .empty maxStubs, .empty maxStubs, rfl, Nat.zero_le _, Nat.zero_le _⟩

theorem room_of_add {stub : Stub β} {id : Nat} (hadd : store.add stub = .ok (id, store'))
    (hlimit : store.limit = maxStubs) :
    store'.limit = maxStubs ∧ store'.size = store.size + 1 ∧ store'.size ≤ maxStubs := by
  obtain ⟨_, hroom, rfl⟩ := StubStore.add_ok hadd
  have hsize : StubStore.size { store with stubs := store.stubs.push stub } = store.size + 1 := Array.size_push ..
  exact ⟨hlimit, hsize, by omega⟩

/-- One request for a site. -/
theorem register {p : SiteTable β × List (ChainRecord β)} (h : Bounded p.1.maxSites maxStubs p.1.sites p.1.store p.2)
    (factory : Factory β) (request : SiteKind × Nat) :
    (SiteTable.register factory p request).1.maxSites = p.1.maxSites ∧
    Bounded p.1.maxSites maxStubs (SiteTable.register factory p request).1.sites
      (SiteTable.register factory p request).1.store (SiteTable.register factory p request).2 := by
  unfold SiteTable.register
  obtain ⟨e, requests, _, heq⟩ | ⟨body, store, hlt, hbody, hadd, heq⟩ := p.1.allocate_cases factory request.1 request.2
  · rw [heq]
    cases factory p.1.requests request.1 <;> exact ⟨rfl, h⟩
  · rw [heq, hbody]
    obtain ⟨hlimit, hsize, hstubs⟩ := room_of_add hadd h.limit
    refine ⟨rfl, fun hfew => ?_, h.linked.openSite hadd rfl, hlimit, ?_, hstubs⟩
    · have hfew : store.size ≤ 2 ^ 32 := hfew
      exact (h.chained (by omega)).openSite (by omega) hadd rfl
    · rw [Array.size_push]
      exact hlt

/-- All requests for sites. -/
theorem registerAll {p : SiteTable β × List (ChainRecord β)} (h : Bounded p.1.maxSites maxStubs p.1.sites p.1.store p.2)
    (factory : Factory β) (requests : List (SiteKind × Nat)) :
    Bounded p.1.maxSites maxStubs (requests.foldl (SiteTable.register factory) p).1.sites
      (requests.foldl (SiteTable.register factory) p).1.store (requests.foldl (SiteTable.register factory) p).2 := by
  induction requests generalizing p with
  | nil => exact h
  | cons request requests ih =>
    obtain ⟨hmax, hnext⟩ := h.register factory request
    rw [List.foldl_cons, ← hmax]
    exact ih (hmax ▸ hnext)

/-- One stub that is put in front. -/
theorem extend {p : Method β × List (ChainRecord β)} (h : Bounded maxSites maxStubs p.1.sites p.1.store p.2)
    (request : Nat × β) :
    Bounded maxSites maxStubs (Method.extend p request).1.sites (Method.extend p request).1.store
      (Method.extend p request).2 := by
  have hchained := Chained.extend h.chained request
  unfold Method.extend at hchained ⊢
  split at hchained
  · rename_i heq
    obtain ⟨site, store, hsite, hadd, rfl⟩ := Method.prepend_ok heq
    obtain ⟨hlimit, _, hstubs⟩ := room_of_add hadd h.limit
    exact ⟨hchained, h.linked.putFront hsite hadd, hlimit,
      Nat.le_trans (Nat.le_of_eq Array.size_modify) h.sites_le, hstubs⟩
  · exact h

/-- All stubs that are put in front. -/
theorem extendAll {p : Method β × List (ChainRecord β)} (h : Bounded maxSites maxStubs p.1.sites p.1.store p.2)
    (stubs : List (Nat × β)) :
    Bounded maxSites maxStubs (stubs.foldl Method.extend p).1.sites (stubs.foldl Method.extend p).1.store
      (stubs.foldl Method.extend p).2 := by
  induction stubs generalizing p with
  | nil => exact h
  | cons request stubs ih => exact ih (h.extend request)

end Bounded

namespace Method

theorem bounded_life (factory : Factory β) (maxSites maxStubs : Nat) (requests : List (SiteKind × Nat))
    (code : LinkedCode) (stubs : List (Nat × β)) :
    Bounded maxSites maxStubs (life factory maxSites maxStubs requests code stubs).1.sites
      (life factory maxSites maxStubs requests code stubs).1.store
        (life factory maxSites maxStubs requests code stubs).2 := by
  have hopened := Bounded.registerAll (p := (.empty maxSites maxStubs, [])) (.empty maxSites maxStubs) factory requests
  exact Bounded.extendAll (p := (.make code _, _)) hopened stubs

/-- A stub that is put in front of a chain of a script's code: the answer is the method's, and nothing but that script's
    code changes. -/
theorem prepend_tier {t : Tier β} {m : Method β} {script index : Nat} {body : β} (hm : t.method? script = some m) :
    (∀ e, m.prepend index body = .error e → (m.sites.size ≤ index ∨ m.store.limit ≤ m.store.size) ∧
      t.prepend script index body = some (.error e, t)) ∧
    ∀ id m', m.prepend index body = .ok (id, m') → ∃ t', t.prepend script index body = some (.ok id, t') ∧
      t'.method? script = some m' ∧ t'.pool = t.pool ∧ ∀ other, other ≠ script →
        t'.method? other = t.method? other := by
  refine ⟨fun e he => ⟨prepend_error he, ?_⟩, fun id m' hok => ?_⟩
  · rw [Tier.prepend, hm, Option.map_some]
    simp only [he]
  · obtain ⟨tenant, htenant⟩ : ∃ tenant, t.tenants[script]? = some tenant := by
      cases htenant : t.tenants[script]? with
      | none =>
        rw [Tier.method?, Tier.script?, htenant] at hm
        cases hm
      | some tenant => exact ⟨tenant, rfl⟩
    refine ⟨{ t with tenants := t.tenants.modify script fun tenant =>
      { tenant with script := { tenant.script with baseline := some m' } } }, ?_, ?_, rfl, fun other hne => ?_⟩
    · rw [Tier.prepend, hm, Option.map_some]
      simp only [hok]
    · rw [Tier.method?, Tier.script?, Array.getElem?_modify, if_pos rfl, htenant]
      rfl
    · rw [Tier.method?, Tier.script?, Array.getElem?_modify, if_neg hne.symm]
      rfl

/-- After any requests: the chains are as the records say exactly as long as 32 bits number the stubs; every walk along
    the links ends; there are no more sites and stubs than there may be; a request that is refused had a cause and
    leaves sites, chains and counts as they were; and a stub that is put in front changes the code of its script
    only. -/
theorem stub_chains_stay_wellFormed (factory : Factory β) (maxSites maxStubs : Nat) (requests : List (SiteKind × Nat))
    (code : LinkedCode) (stubs : List (Nat × β)) {m : Method β} {rs : List (ChainRecord β)}
    (h : life factory maxSites maxStubs requests code stubs = (m, rs)) :
    (m.WellChained rs ↔ m.store.size ≤ 2 ^ 32) ∧
    (∀ k site, m.site? k = some site → m.store.Walks (some site.head) (m.chain k)) ∧
    (m.sites.size ≤ maxSites ∧ m.store.size ≤ maxStubs) ∧
    (∀ (t t' : SiteTable β) (kind : SiteKind) (pc : Nat) (e : CompileError),
      t.allocate factory kind pc = (.error e, t') →
      (t.maxSites ≤ t.size ∨ factory t.requests kind = none ∨ t.store.limit ≤ t.store.size) ∧
        t'.sites = t.sites ∧ t'.store = t.store) ∧
    (∀ (t : Tier β) (m : Method β) (script index : Nat) (body : β), t.method? script = some m →
      (∀ e, m.prepend index body = .error e → (m.sites.size ≤ index ∨ m.store.limit ≤ m.store.size) ∧
        t.prepend script index body = some (.error e, t)) ∧
      ∀ id m', m.prepend index body = .ok (id, m') → ∃ t', t.prepend script index body = some (.ok id, t') ∧
        t'.method? script = some m' ∧ t'.pool = t.pool ∧ ∀ other, other ≠ script →
          t'.method? other = t.method? other) := by
  have hlife := bounded_life factory maxSites maxStubs requests code stubs
  rw [h] at hlife
  refine ⟨⟨fun hchained => hchained.size_le hlife.linked, fun hfew => wellChained_of_chained (hlife.chained hfew)⟩,
    fun k site hsite => ?_, ⟨hlife.sites_le, hlife.stubs_le⟩, ?_, fun t m script index body hm => prepend_tier hm⟩
  · rw [chain, hsite]
    exact (hlife.linked.walks hsite).1
  · intro t t' kind pc e h
    obtain ⟨_, _, hcause, heq⟩ | ⟨_, _, _, _, _, heq⟩ := t.allocate_cases factory kind pc
    · rw [heq] at h
      cases h
      exact ⟨hcause, rfl, rfl⟩
    · rw [heq] at h
      cases h

def numbering : Factory Nat := fun n kind => if kind = .toBool then none else some n

/-- A method with room for two sites and four stubs. Of four sites that were asked for the second has no body and the
    fourth no room; of four stubs the second has no site and the fourth no room. -/
def crowded : Method Nat × List (ChainRecord Nat) :=
  life numbering 2 4 [(.arith .add, 0), (.toBool, 3), (.getElem, 5), (.setElem, 9)] default
    [(1, 10), (7, 11), (0, 12), (1, 13)]

theorem stub_chains_stay_wellFormed_crowded :
    crowded.2 = [⟨(0, 0), [(3, 12)]⟩, ⟨(1, 2), [(2, 10)]⟩] ∧ crowded.1.WellChained crowded.2 ∧
      ((SiteTable.empty 0 4).allocate numbering .getElem 0).2.store = (SiteTable.empty 0 4).store ∧
      ∃ (t : Tier Nat) (e : CompileError), t.method? 0 = some crowded.1 ∧ t.prepend 0 1 13 = some (.error e, t) := by
  have hlife : life numbering 2 4 [(.arith .add, 0), (.toBool, 3), (.getElem, 5), (.setElem, 9)] default
      [(1, 10), (7, 11), (0, 12), (1, 13)] = (crowded.1, crowded.2) := rfl
  obtain ⟨hchained, _, _, hallocate, hprepend⟩ := stub_chains_stay_wellFormed numbering 2 4
    [(.arith .add, 0), (.toBool, 3), (.getElem, 5), (.setElem, 9)] default [(1, 10), (7, 11), (0, 12), (1, 13)] hlife
  let t : Tier Nat := { pool := ⟨0, 0⟩, tenants := #[{ script := { program := default, baseline := some crowded.1 } }] }
  refine ⟨rfl, hchained.mpr (by decide), ?_, t, .stubsExhausted 4, rfl, ?_⟩
  · exact (hallocate (.empty 0 4) _ .getElem 0 (.tableFull 0) rfl).2.2
  · exact ((hprepend t crowded.1 0 1 13 rfl).1 (.stubsExhausted 4) rfl).2

/-! ## One stub too many -/

def prependAll (m : Method β) (stubs : List (Nat × β)) : Except CompileError (Method β) :=
  stubs.foldlM (fun m p => (m.prepend p.1 p.2).map Prod.snd) m

theorem extend_of_prependAll {m m' : Method β} {stubs : List (Nat × β)} (h : m.prependAll stubs = .ok m')
    (rs : List (ChainRecord β)) : (stubs.foldl extend (m, rs)).1 = m' := by
  induction stubs generalizing m rs with
  | nil =>
    cases h
    rfl
  | cons p stubs ih =>
    unfold prependAll at h
    rw [List.foldlM_cons] at h
    cases hp : m.prepend p.1 p.2 with
    | error e => rw [hp] at h; cases h
    | ok answer =>
      rw [hp] at h
      have hextend : extend (m, rs) p = (answer.2, rs.modify p.1 (ChainRecord.add answer.1 p.2)) := by
        unfold extend
        simp only [hp]
      rw [List.foldl_cons, hextend]
      exact ih h _

/-- A method that many stubs were put into, all in front of one chain. -/
structure Stacked (m : Method β) (k n : Nat) (m' : Method β) : Prop where
  code : m'.code = m.code
  sites : m'.sites = m.sites.modify k fun site => { site with head := (m.store.size + n) % 2 ^ 32 }
  size : m'.store.size = m.store.size + n + 1
  limit : m'.store.limit = m.store.limit
  old : ∀ id < m.store.size, m'.store.get? id = m.store.get? id

theorem prepend_stacked {m : Method β} {k : Nat} {site : Site} (hsite : m.site? k = some site) (body : β)
    (hroom : m.store.size < m.store.limit) : ∃ id m', m.prepend k body = .ok (id, m') ∧ m.Stacked k 0 m' := by
  have hadd (stub : Stub β) : m.store.add stub =
      .ok (m.store.size % 2 ^ 32, { m.store with stubs := m.store.stubs.push stub }) :=
    if_pos hroom
  have hprepend : ∃ id m', m.prepend k body = .ok (id, m') := by
    rw [prepend, hsite]
    simp only [hadd]
    exact ⟨_, _, rfl⟩
  obtain ⟨id, m', hm'⟩ := hprepend
  obtain ⟨_, store, _, hstore, rfl⟩ := prepend_ok hm'
  obtain ⟨rfl, _, rfl⟩ := StubStore.add_ok hstore
  refine ⟨_, _, hm', rfl, rfl, Array.size_push .., rfl, fun id hid => ?_⟩
  exact (Array.getElem?_push_lt hid).trans (Array.getElem?_eq_getElem hid).symm

/-- With room for them, all of many stubs are put in front. -/
theorem prependAll_replicate {m : Method β} {k : Nat} {site : Site} (hsite : m.site? k = some site) (body : β) {n : Nat}
    (hroom : m.store.size + n < m.store.limit) :
    ∃ m', m.prependAll (List.replicate (n + 1) (k, body)) = .ok m' ∧ m.Stacked k n m' := by
  induction n with
  | zero =>
    obtain ⟨id, m', hm', hstacked⟩ := prepend_stacked hsite body hroom
    refine ⟨m', ?_, hstacked⟩
    simp only [prependAll, List.replicate, List.foldlM_cons, hm']
    rfl
  | succ n ih =>
    obtain ⟨m', hm', h⟩ := ih (Nat.lt_of_succ_lt hroom)
    have hsite' : m'.site? k = some { site with head := (m.store.size + n) % 2 ^ 32 } := by
      rw [site?, h.sites, Array.getElem?_modify, if_pos rfl, show m.sites[k]? = some site from hsite]
      rfl
    obtain ⟨id, m'', hm'', h'⟩ := prepend_stacked hsite' body (by rw [h.size, h.limit]; exact hroom)
    refine ⟨m'', ?_, h'.code.trans h.code, ?_, ?_, h'.limit.trans h.limit, fun id hid => ?_⟩
    · rw [prependAll, List.replicate_succ', List.foldlM_append]
      rw [prependAll] at hm'
      rw [hm']
      simp only [List.foldlM_cons, List.foldlM_nil, bind, Except.bind, hm'']
      rfl
    · rw [h'.sites, h.sites, h.size]
      refine Array.ext_getElem? fun j => ?_
      simp only [Array.getElem?_modify]
      split
      · cases m.sites[j]? <;> rfl
      · rfl
    · rw [h'.size, h.size]
      rfl
    · rw [h'.old id (by rw [h.size]; omega), h.old id hid]

def brimful (count : Nat) : Method Nat × List (ChainRecord Nat) :=
  life (fun _ _ => some 0) 1 (count + 1) [(.getElem, 0)] default (List.replicate count (0, 1))

/-- With the last stub the site leads to its fallback again, and all that were put in front of it are lost. -/
theorem stub_beyond_the_links :
    (brimful (2 ^ 32)).1.store.size = 2 ^ 32 + 1 ∧ (brimful (2 ^ 32)).1.chain 0 = [(0, ⟨.fallback, 0, none⟩)] ∧
      ¬ (brimful (2 ^ 32)).1.WellChained (brimful (2 ^ 32)).2 := by
  let opened := [(SiteKind.getElem, 0)].foldl (SiteTable.register fun _ _ => some 0) (.empty 1 (2 ^ 32 + 1), [])
  let m : Method Nat := .make default opened.1
  have hone : m.store.size = 1 := rfl
  have hlimit : m.store.limit = 2 ^ 32 + 1 := rfl
  have hopened : m.sites = #[⟨0, .getElem, 0, 0⟩] := rfl
  obtain ⟨m', hm', h⟩ := prependAll_replicate (m := m) (k := 0) rfl 1 (n := 2 ^ 32 - 1) (by omega)
  have hbrimful : (brimful (2 ^ 32)).1 = m' := extend_of_prependAll hm' opened.2
  have hsize : (brimful (2 ^ 32)).1.store.size = 2 ^ 32 + 1 := by
    rw [hbrimful, h.size, hone]
  refine ⟨hsize, ?_, fun hchained => ?_⟩
  · -- The last stub has the number of the first, which is the fallback.
    have hwraps : (1 + (2 ^ 32 - 1)) % 2 ^ 32 = 0 := by omega
    have hsite : m'.site? 0 = some ⟨0, .getElem, 0, 0⟩ := by
      rw [site?, h.sites, hone, hwraps, hopened]
      rfl
    have hwalks : m'.store.Walks (some 0) [(0, ⟨.fallback, 0, none⟩)] := .visit (h.old 0 Nat.one_pos) .stop
    rw [hbrimful, chain, hsite]
    refine hwalks.chainFrom ?_
    rw [← hbrimful, hsize, List.length_singleton]
    omega
  · have hlinked : Linked (brimful (2 ^ 32)).1.sites (brimful (2 ^ 32)).1.store := by
      unfold brimful
      exact (bounded_life ..).linked
    have hfew := hchained.size_le hlinked
    rw [hsize] at hfew
    omega

end Method
end BaselineTier
