import Mathlib.Data.List.Basic
import ServiceMesh.RouteTable

/-!
# Routes with keys of their own

Within a bucket no two routes share a key.  To store a route is then to put it in the place of the
one of its key, or else at the end; to withdraw one is to filter its key out.  Both leave the routes
of all other keys where they are, and so agree with every choice of routes by their keys.
-/

namespace ServiceMesh

theorem Route.sameKey_iff {route other : Route} :
    route.sameKey other = true ↔ route.key = other.key := by
  simp [Route.sameKey]

namespace RouteTable

def DistinctKeys (routes : List Route) : Prop :=
  routes.Pairwise fun one other ↦ one.key ≠ other.key

/-- Puts a route in the place of the one of its key, or else at the end. -/
def place (route : Route) : List Route → List Route
  | [] => [route]
  | held :: rest => if held.sameKey route then route :: rest else held :: place route rest

/-- A new key comes last. -/
theorem place_of_absent {route : Route} {routes : List Route}
    (h : ∀ held ∈ routes, held.key ≠ route.key) : place route routes = routes ++ [route] := by
  induction routes with
  | nil => rfl
  | cons held rest ih =>
    have hheld : ¬ held.sameKey route := fun hsame ↦
      h held List.mem_cons_self (Route.sameKey_iff.1 hsame)
    rw [place, if_neg hheld, ih fun other hmem ↦ h other (List.mem_cons_of_mem _ hmem)]
    rfl

/-- A route of a key that is there takes its place. -/
theorem place_of_present {route held : Route} {routes : List Route} (hmem : held ∈ routes)
    (hkey : held.key = route.key) : place route routes = replaceFirst route routes := by
  induction routes with
  | nil => cases hmem
  | cons first rest ih =>
    unfold place replaceFirst
    split
    · rfl
    · next hfirst =>
      have hrest : held ∈ rest := by
        rcases List.mem_cons.1 hmem with rfl | hrest
        · exact absurd (Route.sameKey_iff.2 hkey) hfirst
        · exact hrest
      rw [ih hrest]

theorem mem_place_self (route : Route) (routes : List Route) : route ∈ place route routes := by
  induction routes with
  | nil => exact List.mem_cons_self
  | cons held rest ih =>
    unfold place
    split
    · exact List.mem_cons_self
    · exact List.mem_cons_of_mem _ ih

/-- Whether it replaces another one or not, only the stored route is new. -/
theorem eq_or_mem_of_mem_place {route other : Route} {routes : List Route}
    (h : other ∈ place route routes) : other = route ∨ other ∈ routes := by
  induction routes with
  | nil => exact .inl (List.mem_singleton.1 h)
  | cons held rest ih =>
    unfold place at h
    split at h
    · exact (List.mem_cons.1 h).imp_right (List.mem_cons_of_mem _)
    · rcases List.mem_cons.1 h with rfl | hrest
      · exact .inr List.mem_cons_self
      · exact (ih hrest).imp_right (List.mem_cons_of_mem _)

theorem eq_or_mem_of_mem_replaceFirst {route other : Route} {routes : List Route}
    (h : other ∈ replaceFirst route routes) : other = route ∨ other ∈ routes := by
  induction routes with
  | nil => cases h
  | cons held rest ih =>
    unfold replaceFirst at h
    split at h
    · exact (List.mem_cons.1 h).imp_right (List.mem_cons_of_mem _)
    · rcases List.mem_cons.1 h with rfl | hrest
      · exact .inr List.mem_cons_self
      · exact (ih hrest).imp_right (List.mem_cons_of_mem _)

theorem distinctKeys_place {route : Route} {routes : List Route} (h : DistinctKeys routes) :
    DistinctKeys (place route routes) := by
  induction routes with
  | nil => exact List.pairwise_singleton _ _
  | cons held rest ih =>
    obtain ⟨hheld, hrest⟩ := List.pairwise_cons.1 h
    unfold place
    split
    · next hsame =>
      have hkey := Route.sameKey_iff.1 hsame
      exact List.pairwise_cons.2 ⟨fun other hmem ↦ hkey ▸ hheld other hmem, hrest⟩
    · next hsame =>
      refine List.pairwise_cons.2 ⟨fun other hmem ↦ ?_, ih hrest⟩
      rcases eq_or_mem_of_mem_place hmem with rfl | hmem
      · exact fun hkey ↦ hsame (Route.sameKey_iff.2 hkey)
      · exact hheld other hmem

/-- A route that is held as it is stays where it is. -/
theorem place_of_mem {route : Route} {routes : List Route} (h : DistinctKeys routes)
    (hmem : route ∈ routes) : place route routes = routes := by
  induction routes with
  | nil => cases hmem
  | cons held rest ih =>
    obtain ⟨hheld, hrest⟩ := List.pairwise_cons.1 h
    unfold place
    rcases List.mem_cons.1 hmem with rfl | hmem
    · rw [if_pos (Route.sameKey_iff.2 rfl)]
    · rw [if_neg fun hsame ↦ hheld route hmem (Route.sameKey_iff.1 hsame), ih hrest hmem]

/-- Storing a route that a choice by keys takes is storing it among those chosen. -/
theorem filter_place_of_pos {chosen : RouteKey → Bool} {route : Route} (h : chosen route.key = true)
    (routes : List Route) :
    (place route routes).filter (fun held ↦ chosen held.key) =
      place route (routes.filter fun held ↦ chosen held.key) := by
  induction routes with
  | nil => simp [place, h]
  | cons held rest ih =>
    by_cases hsame : held.key = route.key
    · simp [place, Route.sameKey, hsame, h]
    · by_cases hheld : chosen held.key = true
      · simp [place, Route.sameKey, hsame, hheld, ih]
      · simp [place, Route.sameKey, hsame, hheld, ih]

/-- Storing any other route leaves those chosen as they are. -/
theorem filter_place_of_neg {chosen : RouteKey → Bool} {route : Route}
    (h : chosen route.key = false) (routes : List Route) :
    (place route routes).filter (fun held ↦ chosen held.key) =
      routes.filter fun held ↦ chosen held.key := by
  induction routes with
  | nil => simp [place, h]
  | cons held rest ih =>
    by_cases hsame : held.key = route.key
    · simp [place, Route.sameKey, hsame, h]
    · simp [place, Route.sameKey, hsame, List.filter_cons, ih]

/-- As the keys are distinct, to erase the first route of a key is to erase the key. -/
theorem eraseP_sameKey {routes : List Route} (h : DistinctKeys routes) (route : Route) :
    routes.eraseP (·.sameKey route) = routes.filter (·.key ≠ route.key) := by
  induction routes with
  | nil => rfl
  | cons held rest ih =>
    obtain ⟨hheld, hrest⟩ := List.pairwise_cons.1 h
    by_cases hsame : held.key = route.key
    · have hkept : rest.filter (·.key ≠ route.key) = rest := by
        simp only [List.filter_eq_self, decide_eq_true_eq]
        exact fun other hmem hkey ↦ hheld other hmem (hsame.trans hkey.symm)
      rw [List.filter_cons_of_neg (by simp [hsame]), hkept]
      simp [Route.sameKey, hsame]
    · rw [List.filter_cons_of_pos (by simp [hsame]), ← ih hrest]
      simp [Route.sameKey, hsame]

/-- Withdrawing a route that a choice by keys does not take leaves those chosen as they are. -/
theorem filter_withdraw_of_neg {chosen : RouteKey → Bool} {route : Route}
    (h : chosen route.key = false) (routes : List Route) :
    (routes.filter (·.key ≠ route.key)).filter (fun held ↦ chosen held.key) =
      routes.filter fun held ↦ chosen held.key := by
  rw [List.filter_filter]
  apply List.filter_congr
  intro held _
  by_cases hkey : held.key = route.key
  · simp [hkey, h]
  · simp [hkey]

theorem DistinctKeys.filter {routes : List Route} (h : DistinctKeys routes) (p : Route → Bool) :
    DistinctKeys (routes.filter p) :=
  List.Pairwise.filter p h

/-- Among routes with keys of their own at most one has a given key. -/
theorem filter_key {routes : List Route} (h : DistinctKeys routes) (key : RouteKey) :
    routes.filter (·.key = key) = (routes.find? (·.key = key)).toList := by
  induction routes with
  | nil => rfl
  | cons held rest ih =>
    obtain ⟨hheld, hrest⟩ := List.pairwise_cons.1 h
    by_cases hsame : held.key = key
    · have hnone : rest.filter (·.key = key) = [] := by
        simp only [List.filter_eq_nil_iff, decide_eq_true_eq]
        exact fun other hmem hother ↦ hheld other hmem (hsame.trans hother.symm)
      simp [hsame, hnone]
    · simp [hsame, ih hrest]

theorem filter_sameKey {routes : List Route} (h : DistinctKeys routes) (route : Route) :
    routes.filter (·.sameKey route) = (routes.find? (·.sameKey route)).toList :=
  filter_key h route.key

end RouteTable

end ServiceMesh
