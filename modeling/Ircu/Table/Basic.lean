import Mathlib.Tactic

/-!
Hash tables with chains.

A table has a chain for each bucket. Each entry lies in the bucket of its key's hash, and
no two entries of a chain have the same key, so a table is a partial map from keys to
entries: `find_put` and `find_filterMap` say how the operations change it.
-/

namespace Ircu

/-- A table of entries with a key, in the buckets of a hash. -/
structure Table {E K B : Type*} (key : E → K) (hash : K → B) where
  chain : B → List E
  hash_eq : ∀ b, ∀ e ∈ chain b, hash (key e) = b
  distinct : ∀ b, (chain b).Pairwise fun a a' => key a ≠ key a'

namespace Table

variable {E K B : Type*} {key : E → K} {hash : K → B}

def empty : Table key hash where
  chain _ := []
  hash_eq := by simp
  distinct := by simp

def filterMap (t : Table key hash) (f : E → Option E)
    (hf : ∀ e e', f e = some e' → key e' = key e) : Table key hash where
  chain b := (t.chain b).filterMap f
  hash_eq b a ha := by
    obtain ⟨e, he, hfe⟩ := List.mem_filterMap.mp ha
    rw [hf e a hfe, t.hash_eq b e he]
  distinct b := by
    rw [List.pairwise_filterMap]
    refine (t.distinct b).imp fun {a a'} hne c hc c' hc' => ?_
    rwa [hf a c hc, hf a' c' hc']

section

variable [DecidableEq K]

def find (t : Table key hash) (k : K) : Option E := (t.chain (hash k)).find? fun e => key e = k

lemma find_eq_some {t : Table key hash} {k e} :
    t.find k = some e ↔ e ∈ t.chain (hash k) ∧ key e = k := by
  constructor
  · intro h
    exact ⟨List.mem_of_find?_eq_some h, by simpa using List.find?_some h⟩
  rintro ⟨he, rfl⟩
  rcases hf : t.find (key e) with _ | e'
  · have hne := List.find?_eq_none.mp hf e he
    simp at hne
  have he' := List.mem_of_find?_eq_some hf
  have hk : key e' = key e := by simpa using List.find?_some hf
  by_contra hne
  have hsymm : Std.Symm fun a a' : E => key a ≠ key a' := ⟨fun _ _ h => h.symm⟩
  exact (t.distinct _).forall he' he (fun h => hne (congrArg some h)) hk

lemma key_of_find {t : Table key hash} {k e} (h : t.find k = some e) : key e = k :=
  (find_eq_some.mp h).2

lemma find_filterMap (t : Table key hash) (f hf k) :
    (t.filterMap f hf).find k = (t.find k).bind f := by
  ext e
  rw [Option.bind_eq_some_iff]
  simp only [filterMap, List.mem_filterMap, find_eq_some]
  constructor
  · rintro ⟨⟨a, ha, hfa⟩, rfl⟩
    exact ⟨a, ⟨ha, (hf a e hfa).symm⟩, hfa⟩
  · rintro ⟨a, ⟨ha, rfl⟩, hfa⟩
    exact ⟨⟨a, ha, hfa⟩, hf a e hfa⟩

end

variable [DecidableEq B] [DecidableEq K]

def putChain (key : E → K) (l : List E) (e : E) : List E :=
  if ∃ a ∈ l, key a = key e then l.map fun a => if key a = key e then e else a else e :: l

lemma key_replace (key : E → K) (e a : E) : key (if key a = key e then e else a) = key a := by
  split_ifs with h
  · exact h.symm
  · rfl

lemma mem_putChain {l e a} (h : a ∈ putChain key l e) : a = e ∨ a ∈ l := by
  unfold putChain at h
  split_ifs at h with hex
  · obtain ⟨b, hb, rfl⟩ := List.mem_map.mp h
    split_ifs
    · exact Or.inl rfl
    · exact Or.inr hb
  · exact List.mem_cons.mp h

lemma putChain_distinct {l} (e) (h : l.Pairwise fun a a' => key a ≠ key a') :
    (putChain key l e).Pairwise fun a a' => key a ≠ key a' := by
  unfold putChain
  split_ifs with hex
  · rw [List.pairwise_map]
    refine h.imp fun {a a'} hne => ?_
    rwa [key_replace key, key_replace key]
  · push Not at hex
    exact List.pairwise_cons.mpr ⟨fun a ha heq => hex a ha heq.symm, h⟩

lemma find?_putChain (l e k) : (putChain key l e).find? (fun a => key a = k) =
      if key e = k then some e else l.find? fun a => key a = k := by
  unfold putChain
  split_ifs with hex hk hk
  · rw [List.find?_map]
    simp only [Function.comp_def, key_replace]
    cases hf : l.find? fun a => key a = k with
    | none =>
      obtain ⟨a, ha, hae⟩ := hex
      have hne := List.find?_eq_none.mp hf a ha
      simp [hae, hk] at hne
    | some a =>
      have ha : key a = k := by simpa using List.find?_some hf
      simp [ha, hk]
  · rw [List.find?_map]
    simp only [Function.comp_def, key_replace]
    cases hf : l.find? fun a => key a = k with
    | none => rfl
    | some a =>
      have ha : key a = k := by simpa using List.find?_some hf
      have hne : ¬ key a = key e := fun h => hk (h.symm.trans ha)
      simp [hne]
  all_goals
    rw [List.find?_cons]
    simp [hk]

def put (t : Table key hash) (e : E) : Table key hash where
  chain b := if b = hash (key e) then putChain key (t.chain b) e else t.chain b
  hash_eq b a ha := by
    split_ifs at ha with hb
    · rcases mem_putChain ha with rfl | ha
      · exact hb.symm
      · exact t.hash_eq b a ha
    · exact t.hash_eq b a ha
  distinct b := by
    split_ifs
    · exact putChain_distinct e (t.distinct b)
    · exact t.distinct b

lemma find_put (t : Table key hash) (e k) :
    (t.put e).find k = if key e = k then some e else t.find k := by
  unfold find put
  dsimp only
  by_cases hb : hash k = hash (key e)
  · rw [if_pos hb, find?_putChain]
  · have hk : ¬ key e = k := fun hk => hb (by rw [hk])
    rw [if_neg hb, if_neg hk]

end Table

end Ircu
