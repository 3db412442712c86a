import Ircu.Http.Basic

/-!
The route that answers a request.

* `Chosen`: the right answer, in terms of what is registered only;
* `routeFindFrom_cases`: what the loop of `http_route_find` finds;
* `Registered`: no two routes have the same method and path, so there is only one right answer.
-/

namespace Ircu.Http

open Run List Option

variable {M H P ρ : Type} {w w' : World M H P ρ} {routes : List (Route M H)} {r : Route M H}
  {method path : List UInt8} {best o o' : Option (Route M H)} {bestlen : ℕ}

def Route.Exact (r : Route M H) (method path : List UInt8) : Prop :=
  sameText r.method method ∧ r.path = path

/-- A route for the method whose path ends in a slash and is an initial part of the path. -/
def Route.Above (r : Route M H) (method path : List UInt8) : Prop :=
  sameText r.method method ∧ r.path.getLast? = some (ch '/') ∧ r.path <+: path

/-- **The route that should answer**: the one with exactly the path, otherwise the longest one
above it, otherwise none. -/
def Chosen (routes : List (Route M H)) (method path : List UInt8) : Option (Route M H) → Prop
  | some r => r ∈ routes ∧ (r.Exact method path ∨ (∀ r' ∈ routes, ¬r'.Exact method path) ∧
      r.Above method path ∧ ∀ r' ∈ routes, r'.Above method path → r'.path.length ≤ r.path.length)
  | none => ∀ r ∈ routes, ¬r.Exact method path ∧ ¬r.Above method path

/-- What `http_add_route` sees to. -/
structure Registered (routes : List (Route M H)) : Prop where
  dir : ∀ r ∈ routes, r.isDir = decide (r.path.getLast? = some (ch '/'))
  unique : ∀ r ∈ routes, ∀ r' ∈ routes, sameText r.method r'.method → r.path = r'.path →
    r = r'

/-! ### The loop -/

lemma routeFindFrom_cons (hdir : r.isDir = decide (r.path.getLast? = some (ch '/'))) :
    (r.Exact method path ∧ routeFindFrom method path (r :: routes) best bestlen = some r) ∨
      ¬r.Exact method path ∧ (r.Above method path ∧ bestlen < r.path.length ∧
            routeFindFrom method path (r :: routes) best bestlen =
              routeFindFrom method path routes (some r) r.path.length ∨
          (r.Above method path → r.path.length ≤ bestlen) ∧
            routeFindFrom method path (r :: routes) best bestlen =
              routeFindFrom method path routes best bestlen) := by
  rw [routeFindFrom, Route.Exact, Route.Above, ← isPrefixOf_iff_prefix]
  split_ifs with hmethod hpath hlast hpre hlen
  · exact .inl ⟨⟨by simpa using hmethod, hpath⟩, rfl⟩
  · exact .inr ⟨by simp [hpath], .inr ⟨by simp_all, rfl⟩⟩
  · exact .inr ⟨by simp [hpath], .inr ⟨by simp [hpre], rfl⟩⟩
  · exact .inr ⟨by simp [hpath], .inl ⟨by simp_all, hlen, rfl⟩⟩
  · exact .inr ⟨by simp [hpath], .inr ⟨fun _ => not_lt.mp hlen, rfl⟩⟩
  · exact .inr ⟨by simp [hmethod], .inr ⟨by simp [hmethod], rfl⟩⟩

lemma routeFindFrom_cases (hdir : ∀ r ∈ routes, r.isDir = decide (r.path.getLast? = some (ch '/')))
    (ho : routeFindFrom method path routes best bestlen = o) :
    (∃ r ∈ routes, r.Exact method path ∧ o = some r) ∨ (∀ r ∈ routes, ¬r.Exact method path) ∧
        (o = best ∧ (∀ r ∈ routes, r.Above method path → r.path.length ≤ bestlen) ∨
          ∃ r ∈ routes, o = some r ∧ r.Above method path ∧ bestlen < r.path.length ∧
            ∀ r' ∈ routes, r'.Above method path → r'.path.length ≤ r.path.length) := by
  induction routes generalizing best bestlen with
  | nil => exact .inr ⟨by simp, .inl ⟨ho.symm, by simp⟩⟩
  | cons r routes ih =>
    rw [forall_mem_cons] at hdir
    simp only [forall_mem_cons, exists_mem_cons_iff]
    rcases routeFindFrom_cons hdir.1 with ⟨hr, heq⟩ | ⟨hr, ⟨habove, hlt, heq⟩ | ⟨hle, heq⟩⟩
    · exact .inl (.inl ⟨hr, ho.symm.trans heq⟩)
    · rcases ih hdir.2 (heq.symm.trans ho) with
        hex | ⟨hno, ⟨rfl, hall⟩ | ⟨r', hr', rfl, habove', hlt', hall⟩⟩
      · exact .inl (.inr hex)
      · exact .inr ⟨⟨hr, hno⟩, .inr (.inl ⟨rfl, habove, hlt, fun _ => le_rfl, hall⟩)⟩
      · exact .inr ⟨⟨hr, hno⟩, .inr (.inr ⟨r', hr', rfl, habove', hlt.trans hlt',
          fun _ => hlt'.le, hall⟩)⟩
    · rcases ih hdir.2 (heq.symm.trans ho) with
        hex | ⟨hno, ⟨rfl, hall⟩ | ⟨r', hr', rfl, habove', hlt', hall⟩⟩
      · exact .inl (.inr hex)
      · exact .inr ⟨⟨hr, hno⟩, .inl ⟨rfl, hle, hall⟩⟩
      · exact .inr ⟨⟨hr, hno⟩, .inr (.inr ⟨r', hr', rfl, habove', hlt',
          fun habove => (hle habove).trans hlt'.le, hall⟩)⟩

lemma Registered.chosen (h : Registered w.routes) :
    Chosen w.routes method path (httpRouteFind w method path) := by
  obtain ⟨o, ho⟩ : ∃ o, httpRouteFind w method path = o := ⟨_, rfl⟩
  rw [ho]
  rcases routeFindFrom_cases h.dir ho with
    ⟨r, hr, hexact, rfl⟩ | ⟨hno, ⟨rfl, hall⟩ | ⟨r, hr, rfl, habove, -, hall⟩⟩
  · exact ⟨hr, .inl hexact⟩
  · refine fun r hr => ⟨hno r hr, fun habove => ?_⟩
    have hnil := eq_nil_of_length_eq_zero (Nat.le_zero.mp (hall r hr habove))
    have hlast := habove.2.1
    rw [hnil] at hlast
    cases hlast
  · exact ⟨hr, .inr ⟨hno, habove, hall⟩⟩

lemma Registered.chosen_unique (h : Registered routes) (ho : Chosen routes method path o)
    (ho' : Chosen routes method path o') : o = o' := by
  have hsame : ∀ {r r' : Route M H}, r ∈ routes → r' ∈ routes → r.path = r'.path →
      sameText r.method method → sameText r'.method method → r = r' := by
    intro r r' hr hr' hpath hm hm'
    refine h.unique r hr r' hr' ?_ hpath
    exact hm.trans hm'.symm
  match o, o', ho, ho' with
  | none, none, _, _ => rfl
  | none, some r, hnone, ⟨hr, hcase⟩ | some r, none, ⟨hr, hcase⟩, hnone =>
    rcases hcase with hexact | ⟨-, habove, -⟩
    · exact absurd hexact (hnone r hr).1
    · exact absurd habove (hnone r hr).2
  | some r, some r', ⟨hr, hcase⟩, ⟨hr', hcase'⟩ =>
    rcases hcase with hexact | ⟨hno, habove, hall⟩ <;>
      rcases hcase' with hexact' | ⟨hno', habove', hall'⟩
    · exact congrArg some (hsame hr hr' (hexact.2.trans hexact'.2.symm) hexact.1 hexact'.1)
    · exact absurd hexact (hno' r hr)
    · exact absurd hexact' (hno r' hr')
    · -- two initial parts of one path with the same length
      have hlen := le_antisymm (hall' r hr habove) (hall r' hr' habove')
      have hpath :=
        (prefix_of_prefix_length_le habove.2.2 habove'.2.2 hlen.le).eq_of_length hlen
      exact congrArg some (hsame hr hr' hpath habove.1 habove'.1)

/-! ### What is registered -/

lemma Registered.subset {routes'} (h : Registered routes)
    (hsub : routes' ⊆ routes) : Registered routes' :=
  ⟨fun r hr => h.dir r (hsub hr), fun r hr r' hr' => h.unique r (hsub hr) r' (hsub hr')⟩

lemma Registered.add [DecidableEq M] (h : Registered w.routes) (mod : M) (fn : H) :
    Registered (httpAddRoute w mod method path fn).routes := by
  rw [httpAddRoute]
  split_ifs with hrefuse
  · exact h
  push Not at hrefuse
  have hnew : ∀ r ∈ w.routes, sameText r.method method → r.path ≠ path := by
    have hnone := not_isSome_iff_eq_none.mp hrefuse.2.2.2.2.1
    intro r hr hm hp
    exact List.find?_eq_none.mp hnone r hr (by simp [hm, hp])
  refine ⟨forall_mem_cons.mpr ⟨rfl, h.dir⟩, fun r hr r' hr' hm hp => ?_⟩
  rcases mem_cons.mp hr with rfl | hr <;> rcases mem_cons.mp hr' with rfl | hr'
  · rfl
  · exact absurd hp.symm (hnew r' hr' hm.symm)
  · exact absurd hp (hnew r hr hm)
  · exact h.unique r hr r' hr' hm hp

lemma takeAndReply_routes {kind reply found}
    (h : takeAndReply w kind reply = some (w', found)) : w'.routes = w.routes := by
  obtain ⟨⟨calls, _ | a⟩, -, h⟩ := bind_eq_some_iff.mp h
  · cases h
    rfl
  · simp only [httpFinish, Option.map_map, Option.map_eq_some_iff] at h
    obtain ⟨calls', -, h⟩ := h
    cases h
    rfl

lemma httpTimerArm_routes (h : httpTimerArm w = some w') : w'.routes = w.routes := by
  rw [httpTimerArm] at h
  split at h
  · cases h
    rfl
  · obtain ⟨e, -, rfl⟩ := map_eq_some_iff.mp h
    rfl

lemma expireLoop_routes {now fuel} (h : expireLoop now fuel w = some w') :
    w'.routes = w.routes := by
  induction fuel generalizing w with
  | zero => cases h
  | succ fuel ih =>
    rw [expireLoop] at h
    split at h
    · cases h
    · rename_i htake
      exact (httpTimerArm_routes h).trans (takeAndReply_routes htake)
    · rename_i htake
      exact (ih h).trans (takeAndReply_routes htake)

/-- Whatever is called, no two routes become alike. -/
lemma Registered.step [DecidableEq M] {e} (h : Registered w.routes)
    (heq : step w e = some w') : Registered w'.routes := by
  cases e with
  | addRoute mod method path fn =>
    cases heq
    exact h.add mod fn
  | delRoute mod method path =>
    cases heq
    exact h.subset eraseP_subset
  | unload mod =>
    obtain ⟨x, -, rfl⟩ := map_eq_some_iff.mp heq
    exact h.subset filter_sublist.subset
  | configure timeout | tick now =>
    cases heq
    exact h
  | dispatch method path pid =>
    rw [Http.step, httpDispatch] at heq
    split_ifs at heq
    · cases heq
      exact h
    · split at heq <;>
      · cases heq
        exact h
  | setTransport =>
    rw [Http.step, httpSetTransport] at heq
    split_ifs at heq <;>
    · cases heq
      exact h
  | clearTransport =>
    rw [Http.step, httpClearTransport] at heq
    split_ifs at heq
    · cases heq
      exact h
    · obtain ⟨x, -, rfl⟩ := map_eq_some_iff.mp heq
      exact h
  | fire => exact (expireLoop_routes heq) ▸ h
  | respond id res =>
    obtain ⟨⟨w1, found⟩, htake, rfl⟩ := map_eq_some_iff.mp heq
    exact (takeAndReply_routes htake) ▸ h
  | ret done =>
    rw [Http.step] at heq
    split at heq
    · cases heq
    · rw [dispatched] at heq
      split_ifs at heq
      · obtain ⟨call, -, heq⟩ := bind_eq_some_iff.mp heq
        obtain ⟨⟨w1, found⟩, htake, rfl⟩ := map_eq_some_iff.mp heq
        exact (takeAndReply_routes htake) ▸ h
      · obtain ⟨w1, harm, rfl⟩ := map_eq_some_iff.mp heq
        exact (httpTimerArm_routes harm) ▸ h

lemma registered_of_run [DecidableEq M] {now timeout es}
    (hrun : run step (World.init now timeout) es = some w) : Registered w.routes := by
  have hinit : Registered (World.init now timeout : World M H P ρ).routes :=
    ⟨fun _ hr => absurd hr not_mem_nil, fun _ hr => absurd hr not_mem_nil⟩
  exact run_keeps (fun w => Registered w.routes) (fun _ _ _ _ h => h.step) hinit hrun

/-- **The right route is found**, whatever was registered and in whatever order: the answer is the
right one, and it depends only on which routes there are. -/
theorem httpRouteFind_correct [DecidableEq M] {now timeout now' timeout' : ℤ}
    {es es' : List (Event M H P ρ)} (hrun : run step (World.init now timeout) es = some w)
    (hrun' : run step (World.init now' timeout') es' = some w') (method path : List UInt8) :
    (∀ o, httpRouteFind w method path = o ↔ Chosen w.routes method path o) ∧
      ((∀ r, r ∈ w.routes ↔ r ∈ w'.routes) →
        httpRouteFind w method path = httpRouteFind w' method path) := by
  have hreg := registered_of_run hrun
  refine ⟨fun o => ⟨fun ho => ho ▸ hreg.chosen, hreg.chosen_unique hreg.chosen⟩, fun hmem => ?_⟩
  refine hreg.chosen_unique hreg.chosen ?_
  have hchosen := @Registered.chosen M H P ρ w' method path (registered_of_run hrun')
  rw [Chosen.eq_def] at hchosen ⊢
  simpa only [hmem] using hchosen

def twoRoutes : List (Event ℕ ℕ ℕ ℕ) :=
  [.addRoute 1 (str "GET") (str "/") 7, .addRoute 2 (str "GET") (str "/a/") 8]

theorem httpRouteFind_correct_twoRoutes : ∃ w, run step (World.init 0 0) twoRoutes = some w ∧
    Chosen w.routes (str "get") (str "/a/b") (httpRouteFind w (str "get") (str "/a/b")) := by
  have hrun : run step (World.init 0 0) twoRoutes = some _ := rfl
  exact ⟨_, hrun, ((httpRouteFind_correct hrun hrun _ _).1 _).mp rfl⟩

end Ircu.Http
