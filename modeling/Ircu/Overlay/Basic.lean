import Mathlib.Tactic

/-!
A list in which wider items replace narrower ones, filled in two phases.

In the first phase items are offered one by one (`offer`). An item that a live
entry covers is dropped; any other one strikes out the entries that it covers and
is put at the end. In the second phase the entries that have been struck out
leave, and those of the new items that are still live are admitted as long as
there is room (`fitting`).

* `LiveTakes.offers`: if covering is sound, whatever some entry takes is taken by a
  live one.
-/

namespace Overlay

open List

variable {α γ : Type*}

structure Layer (α : Type*) where
  item : α
  struck : Bool

section Offer

variable (covers : α → α → Bool) (es : List (Layer α))

def offer (n : α) : List (Layer α) :=
  if es.any fun e => covers e.item n && !e.struck then es
  else es.map (fun e => { e with struck := e.struck || covers n e.item }) ++ [⟨n, false⟩]

def offers (ns : List α) : List (Layer α) := ns.foldl (offer covers) es

def live : List α := (es.filter fun e => !e.struck).map Layer.item

variable {covers}

@[simp] lemma live_nil : live ([] : List (Layer α)) = [] := rfl

lemma live_cons_live (a : α) (es) : live (⟨a, false⟩ :: es) = a :: live es := rfl

lemma live_fresh (as : List α) : live (as.map fun a => ⟨a, false⟩) = as := by
  induction as with
  | nil => rfl
  | cons a as ih => rw [map_cons, live_cons_live, ih]

lemma live_append (es fs : List (Layer α)) : live (es ++ fs) = live es ++ live fs := by
  rw [live, filter_append, map_append]
  rfl

lemma mem_live {es} {a : α} : a ∈ live es ↔ ⟨a, false⟩ ∈ es := by
  rw [live, mem_map]
  constructor
  · rintro ⟨⟨a, s⟩, he, rfl⟩
    obtain ⟨he, hs⟩ := mem_filter.mp he
    cases s with
    | false => exact he
    | true => simp at hs
  · intro h
    exact ⟨⟨a, false⟩, mem_filter.mpr ⟨h, rfl⟩, rfl⟩

open Layer

variable (covers) in
lemma items_offer (es : List (Layer α)) (n : α) :
    (offer covers es n).map item = es.map item ∨
      (offer covers es n).map item = es.map item ++ [n] := by
  rw [offer]
  split_ifs
  · exact .inl rfl
  · refine .inr ?_
    rw [map_append, map_map]
    rfl

variable (covers) in
lemma offers_append (es fs : List (Layer α)) (ns : List α) :
    ∃ es' fs', offers covers (es ++ fs) ns = es' ++ fs' ∧ es'.map item = es.map item ∧
      (fs'.map item).Sublist (fs.map item ++ ns) := by
  induction ns generalizing es fs with
  | nil => exact ⟨es, fs, rfl, rfl, by simp⟩
  | cons n ns ih =>
    rw [offers, foldl_cons, offer]
    split_ifs
    · obtain ⟨es', fs', h, hes, hfs⟩ := ih es fs
      exact ⟨es', fs', h, hes, hfs.trans ((sublist_cons_self n ns).append_left _)⟩
    rw [map_append, append_assoc]
    obtain ⟨es', fs', h, hes, hfs⟩ :=
      ih (es.map fun e => { e with struck := e.struck || covers n e.item })
        (fs.map (fun e => { e with struck := e.struck || covers n e.item }) ++ [⟨n, false⟩])
    refine ⟨es', fs', h, hes.trans ?_, ?_⟩
    · rw [map_map]
      rfl
    · rw [map_append, map_map, append_assoc] at hfs
      exact hfs

lemma live_sublist (es : List (Layer α)) : (live es).Sublist (es.map item) :=
  filter_sublist.map _

variable (takes : α → γ → Prop)

def LiveTakes (es : List (Layer α)) : Prop :=
  ∀ e ∈ es, ∀ c, takes e.item c → ∃ a ∈ live es, takes a c

variable {takes}

lemma LiveTakes.fresh (as : List α) : LiveTakes takes (as.map fun a => (⟨a, false⟩ : Layer α)) := by
  intro e he c hc
  obtain ⟨a, ha, rfl⟩ := mem_map.mp he
  exact ⟨a, by rwa [live_fresh], hc⟩

lemma LiveTakes.offer {es} (h : LiveTakes takes es) {n}
    (hsound : ∀ e ∈ es, covers n e.item = true → ∀ c, takes e.item c → takes n c) :
    LiveTakes takes (offer covers es n) := by
  rw [Overlay.offer]
  split_ifs
  · exact h
  intro e he c hc
  rcases mem_append.mp he with he | he
  · obtain ⟨e', he', rfl⟩ := mem_map.mp he
    obtain ⟨a, ha, hac⟩ := h e' he' c hc
    rw [mem_live] at ha
    by_cases hcov : covers n a = true
    · exact ⟨n, mem_live.mpr (by simp), hsound _ ha hcov c hac⟩
    · refine ⟨a, mem_live.mpr (mem_append_left _ (mem_map.mpr ⟨_, ha, ?_⟩)), hac⟩
      simp [hcov]
  · rw [mem_singleton] at he
    rw [he] at hc
    exact ⟨n, mem_live.mpr (by simp), hc⟩

/-- **Offers lose nothing** if covering is sound. -/
theorem LiveTakes.offers {es} (h : LiveTakes takes es) {ns}
    (hsound : ∀ n ∈ ns, ∀ a, a ∈ es.map item ∨ a ∈ ns → covers n a = true →
      ∀ c, takes a c → takes n c) : LiveTakes takes (offers covers es ns) := by
  induction ns generalizing es with
  | nil => exact h
  | cons n ns ih =>
    have hn : ∀ e ∈ es, covers n e.item = true → ∀ c, takes e.item c → takes n c :=
      fun e he => hsound n mem_cons_self e.item (.inl (mem_map_of_mem he))
    refine ih (h.offer hn) ?_
    intro m hm a ha
    refine hsound m (mem_cons_of_mem n hm) a ?_
    rcases ha with ha | ha
    · rcases items_offer covers es n with heq | heq
      · exact .inl (heq ▸ ha)
      · rw [heq, mem_append, mem_singleton] at ha
        exact ha.imp_right fun han => mem_cons.mpr (.inl han)
    · exact .inr (mem_cons_of_mem n ha)

end Offer

/-! ### Room -/

section Admit

variable (size : α → ℕ) (maxCount maxSize : ℕ)

/-- The items that are admitted to a list of `count` items of the given total size. -/
def fitting : ℕ → ℕ → List α → List α
  | _, _, [] => []
  | count, total, n :: ns =>
    if total + size n > maxSize ∨ count + 1 > maxCount then fitting count total ns
    else n :: fitting (count + 1) (total + size n) ns

variable {size maxCount maxSize}

lemma fitting_sublist (count total : ℕ) (ns) :
    (fitting size maxCount maxSize count total ns).Sublist ns := by
  induction ns generalizing count total with
  | nil => exact .slnil
  | cons n ns ih =>
    rw [fitting]
    split_ifs
    · exact (ih count total).cons n
    · exact (ih _ _).cons_cons n

lemma fitting_eq {count total ns} (hc : count + ns.length ≤ maxCount)
    (hs : total + (ns.map size).sum ≤ maxSize) :
    fitting size maxCount maxSize count total ns = ns := by
  induction ns generalizing count total with
  | nil => rfl
  | cons n ns ih =>
    rw [length_cons] at hc
    rw [map_cons, sum_cons] at hs
    rw [fitting, if_neg (by omega), ih (by omega) (by omega)]

end Admit

end Overlay
