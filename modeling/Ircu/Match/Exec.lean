import Ircu.Match.Compile
import Ircu.Match.Correct

/-!
`matchexec` of `match.c`: a string against a compiled mask.

The code reads its pointers by pre-increment (or, from the end of the string, by
pre-decrement), so a pointer is given here as what it will read next: the rest
of the string, or the string before it read backwards. Reading the byte in front
of the string is allowed and gives an unknown byte `junk`; reading beyond that,
or beyond the terminator, is a fault, and then there is no result.

The comparison at the three labels `tryhead`, `trytail` and `trychunk` is one
loop (`walk`), which passes over equal characters and, through the jump back to
the label, over every `A`.
-/

namespace Ircu

open Glob List Lit

/-! ### The matcher -/

/-- The comparison loop of the three labels: where the mask and the string stand
when it stops. -/
def walk : List UInt8 → List UInt8 → List UInt8 × List UInt8
  | [], s => ([], s)
  | c :: b, [] => (c :: b, [])
  | c :: b, x :: s => if toLower x = c ∨ c = ch 'A' then walk b s else (c :: b, x :: s)

/-- How the part up to the first star ends: with a return, or at a star, with the
rest of the string from `bs` on and of the mask behind the star. -/
inductive HeadRes where
  | ret (r : ℕ)
  | star (bs b : List UInt8)
deriving DecidableEq

/-- The code at `tryhead`. -/
def tryHead (string cmask : List UInt8) : HeadRes :=
  match walk cmask string with
  | (b, []) =>
    match b with
    | [] => .ret 0
    | c :: b' => if c ≠ ch 'Z' ∨ b' ≠ [] then .ret 1 else .ret 0
  | ([], _ :: _) => .ret 1
  | (c :: b, x :: s) => if c = ch 'Z' then .star (x :: s) b else .ret 1

inductive TailRes where
  | ret (r : ℕ)
  | star (b : List UInt8)
deriving DecidableEq

variable (junk : UInt8)

/-- The code at `trytail`, on the string read backwards. -/
def tryTail (r b : List UInt8) : Option TailRes :=
  match walk b r with
  | ([], _) => some (.ret 0)
  | (c :: b, []) =>
    if toLower junk = c then none
    else if c = ch 'Z' then some (.star b)
    else if c = ch 'A' then none
    else some (.ret 1)
  | (c :: b, _ :: _) => if c = ch 'Z' then some (.star b) else some (.ret 1)

/-- How the comparison of a chunk ends: at the end of the mask, at the next star,
or with a mismatch. -/
inductive ChunkRes where
  | complete
  | star (s b : List UInt8)
  | fail
deriving DecidableEq

/-- The code at `trychunk`. -/
def tryChunk (s b : List UInt8) : Option ChunkRes :=
  match walk b s with
  | ([], _) => some .complete
  | (c :: b, s) =>
    if c = ch 'Z' then some (.star s b)
    else if c = ch 'A' then none
    else some .fail

/-- The loop over the chunks, for at most the given number of turns: `s` is what
is left of the string, `bb` what is left of the mask behind the star. -/
def chunkLoop : ℕ → List UInt8 → List UInt8 → ℤ → Option ℕ
  | 0, _, _, _ => none
  | _ + 1, _, [], _ => some 0
  | _ + 1, [], _ :: _, trash => if trash - 1 < 0 then some 4 else none
  | k + 1, x :: s, c :: b, trash =>
    if toLower x ≠ c then
      if trash - 1 < 0 then some 4 else chunkLoop k s (c :: b) (trash - 1)
    else
      match tryChunk s b with
      | none => none
      | some .complete => some 0
      | some (.star s' b') => chunkLoop k s' b' trash
      | some .fail => if trash - 1 < 0 then some 5 else chunkLoop k s (c :: b) (trash - 1)

lemma chunkLoop_cons (k : ℕ) (x c : UInt8) (s b : List UInt8) (trash : ℤ) :
    chunkLoop (k + 1) (x :: s) (c :: b) trash = if toLower x ≠ c then
        if trash - 1 < 0 then some 4 else chunkLoop k s (c :: b) (trash - 1)
      else
        match tryChunk s b with
        | none => none
        | some .complete => some 0
        | some (.star s' b') => chunkLoop k s' b' trash
        | some .fail => if trash - 1 < 0 then some 5 else chunkLoop k s (c :: b) (trash - 1) := rfl

def matchexec (string cmask : List UInt8) (minlen : ℤ) : Option ℕ :=
  match tryHead string cmask with
  | .ret r => some r
  | .star bs b =>
    let trash := (string.length : ℤ) - minlen
    if trash < 0 then some 2
    else
      match tryTail junk string.reverse b with
      | none => none
      | some (.ret r) => some r
      | some (.star b) => chunkLoop (bs.length + 1) bs b trash

/-! ### The comparison loop -/

@[simp] lemma walk_nil (s) : walk [] s = ([], s) := by
  simp [walk]

@[simp] lemma walk_star (b s) : walk (ch 'Z' :: b) s = (ch 'Z' :: b, s) := by
  cases s with
  | nil => rfl
  | cons x s => exact if_neg (not_or.mpr ⟨toLower_ne_Z x, by decide⟩)

variable {p u c tail : List UInt8} {cs : List (List UInt8)}

/-- A star-free piece of the mask either is matched by the front of the string,
and the loop goes on behind it, or is not, and the loop stops inside it. -/
lemma walk_body (hp : Body p) (rest s : List UInt8) :
    (∃ u s', s = u ++ s' ∧ Matches accepts (rawToks p) u ∧ walk (p ++ rest) s = walk rest s') ∨
    ((∀ u s', s = u ++ s' → ¬ Matches accepts (rawToks p) u) ∧
      ∃ c b s', walk (p ++ rest) s = (c :: b, s') ∧ c ≠ ch 'Z' ∧ (c = ch 'A' → s' = []) ∧
        (s' = [] → s.length < p.length)) := by
  induction p generalizing s with
  | nil => exact .inl ⟨[], s, rfl, .nil, rfl⟩
  | cons c p ih =>
    have hc : c = ch 'A' ∨ RawLit c := hp c (by simp)
    have hcZ : c ≠ ch 'Z' := by
      obtain rfl | hlit := hc
      · decide
      · exact hlit.ne_Z
    -- what the first item takes
    have hfirst : ∀ x u, Matches accepts (rawToks (c :: p)) (x :: u) ↔
        (toLower x = c ∨ c = ch 'A') ∧ Matches accepts (rawToks p) u := by
      intro x u
      obtain rfl | hlit := hc
      · simp [rawToks]
      · simp [rawToks, hlit.rawTok, hlit.accepts, hlit.ne_A]
    have hnil : ¬ Matches accepts (rawToks (c :: p)) [] := by
      intro h
      obtain rfl | hlit := hc
      · simp [rawToks] at h
      · simp [rawToks, hlit.rawTok] at h
    cases s with
    | nil =>
      refine .inr ⟨?_, c, p ++ rest, [], rfl, hcZ, fun _ => rfl, by simp⟩
      intro u s' h
      rwa [(nil_eq_append_iff.mp h).1]
    | cons x s =>
      by_cases hx : toLower x = c ∨ c = ch 'A'
      · have hwalk : walk (c :: p ++ rest) (x :: s) = walk (p ++ rest) s := if_pos hx
        rw [hwalk]
        obtain ⟨u, s', rfl, hm, hw⟩ | ⟨hno, d, b, s', hw, hd, hA, hlen⟩ :=
          ih (fun d hd => hp d (mem_cons_of_mem c hd)) s
        · exact .inl ⟨x :: u, s', rfl, (hfirst x u).mpr ⟨hx, hm⟩, hw⟩
        refine .inr ⟨?_, d, b, s', hw, hd, hA, fun h => by simpa using hlen h⟩
        intro u t h hm
        obtain _ | ⟨y, u⟩ := u
        · exact hnil hm
        · obtain ⟨rfl, h'⟩ := List.cons.inj h
          exact hno u t h' ((hfirst x u).mp hm).2
      · refine .inr ⟨?_, c, p ++ rest, x :: s, if_neg hx, hcZ, ?_, by simp⟩
        · intro u t h hm
          obtain _ | ⟨y, u⟩ := u
          · exact hnil hm
          · obtain ⟨rfl, _⟩ := List.cons.inj h
            exact hx ((hfirst x u).mp hm).1
        · exact fun h => absurd (.inr h) hx

/-! ### The chunks -/

lemma body_split {v s t} (hp : Body p) (hu : Matches accepts (rawToks p) u)
    (hv : Matches accepts (rawToks p) v) (h : u ++ s = v ++ t) : u = v ∧ s = t := by
  have hlen : u.length = v.length := by rw [hu.length_eq hp.starFree, hv.length_eq hp.starFree]
  exact append_inj h hlen

lemma Body.length_eq (hp : Body p) (h : Matches accepts (rawToks p) u) :
    u.length = p.length := by
  rw [h.length_eq hp.starFree, rawToks, length_map]

lemma joinChunks_cons (c cs) : joinChunks (c :: cs) = ch 'Z' :: (c ++ joinChunks cs) := by
  simp [joinChunks]

/-- The pattern from a star in front of the chunk `c` up to the star in front of
the tail. -/
def chunkToks (c : List UInt8) (cs : List (List UInt8)) : List (Tok Lit) :=
  .star :: (rawToks c ++ (rawToks (joinChunks cs) ++ [.star]))

lemma tryChunk_spec (hp : Body p) (cs : List (List UInt8)) (s : List UInt8)
    (hlen : p.length ≤ s.length) :
    (∃ u s', s = u ++ s' ∧ Matches accepts (rawToks p) u ∧
      tryChunk s (p ++ joinChunks cs) = match cs with
        | [] => some .complete
        | c :: cs => some (.star s' (c ++ joinChunks cs))) ∨
    ((∀ u s', s = u ++ s' → ¬ Matches accepts (rawToks p) u) ∧
      tryChunk s (p ++ joinChunks cs) = some .fail) := by
  obtain ⟨u, s', rfl, hm, hw⟩ | ⟨hno, c, b, s', hw, hcZ, hcA, hs⟩ := walk_body hp (joinChunks cs) s
  · refine .inl ⟨u, s', rfl, hm, ?_⟩
    rw [tryChunk, hw]
    cases cs with
    | nil => simp [joinChunks]
    | cons c cs => simp [joinChunks_cons]
  · refine .inr ⟨hno, ?_⟩
    have hs' : s' ≠ [] := fun h => absurd (hs h) (by omega)
    rw [tryChunk, hw]
    simp only [if_neg hcZ, if_neg (fun h => hs' (hcA h))]

@[simp] lemma needed_star (p : List (Tok Lit)) : needed (.star :: p) = needed p := by
  simp [needed]

lemma needed_joinChunks (hc : Body c) (cs) :
    needed (rawToks (joinChunks (c :: cs))) = c.length + needed (rawToks (joinChunks cs)) := by
  rw [joinChunks_cons, rawToks, map_cons, rawTok_Z, needed_star, ← rawToks, rawToks_append,
    needed_append, hc.needed]

lemma needed_rest (ht : Body tail) : needed (rawToks (joinChunks cs) ++ .star :: rawToks tail)
      = needed (rawToks (joinChunks cs)) + tail.length := by
  rw [needed_append, needed_star, ht.needed]

lemma needed_chunkToks (hc : Body c) (cs) :
    needed (chunkToks c cs) = c.length + needed (rawToks (joinChunks cs)) := by
  rw [chunkToks, needed_star, needed_append, needed_append, hc.needed, needed_star]
  simp [needed]

lemma chunkToks_found (hc : Body c) (d : List UInt8) (cs) {w}
    (hu : Matches accepts (rawToks c) u) :
    Matches accepts (chunkToks c (d :: cs)) (u ++ w) ↔ Matches accepts (chunkToks d cs) w := by
  have hlen := hu.length_eq hc.starFree
  have hshape : chunkToks c (d :: cs)
      = .star :: (rawToks c ++ .star :: (rawToks d ++ (rawToks (joinChunks cs) ++ [.star]))) := by
    simp [chunkToks, joinChunks_cons, rawToks]
  rw [hshape, star_chunk_star hc.starFree (suffix_refl (u ++ w))]
  · rw [← hlen, drop_left]
    rfl
  · rw [← hlen, take_left]
    exact hu
  · exact fun r hr hlt => absurd hr.length_le (by omega)

/-- The chunk is not at the front of the string: one more character goes to
waste, unless the budget is spent, and then the rest has no room. -/
lemma chunkLoop_retry {k e x w t trash} (he : e ≠ 0)
    (hgo : 0 ≤ trash - 1 → ∃ r, chunkLoop k (w ++ t) (c ++ joinChunks cs) (trash - 1) = some r ∧
      (r = 0 ↔ Matches accepts (chunkToks c cs) w))
    (hroom : trash - 1 < 0 → w.length < needed (chunkToks c cs))
    (hno : ¬ Matches accepts (rawToks c ++ (rawToks (joinChunks cs) ++ [.star])) (x :: w)) :
    ∃ r, (if trash - 1 < 0 then some e
        else chunkLoop k (w ++ t) (c ++ joinChunks cs) (trash - 1)) = some r ∧
      (r = 0 ↔ Matches accepts (chunkToks c cs) (x :: w)) := by
  have hskip : Matches accepts (chunkToks c cs) (x :: w) ↔ Matches accepts (chunkToks c cs) w := by
    rw [chunkToks, matches_star_tail]
    simp [hno]
  by_cases h0 : trash - 1 < 0
  · refine ⟨e, if_pos h0, ?_⟩
    simp only [he, hskip, false_iff]
    exact fun hm => absurd hm.needed_le (not_le.mpr (hroom h0))
  · obtain ⟨r, hr, hiff⟩ := hgo (by omega)
    exact ⟨r, by rw [if_neg h0]; exact hr, hiff.trans hskip.symm⟩

/-- **The search for the chunks.** The string that is left is `w` followed by the
tail `t`, and `trash` is what `w` has more than the chunks need. -/
lemma chunkLoop_spec (k c cs) (w t : List UInt8)
    (trash) (hk : w.length + t.length < k) (hc : Chunk c) (hcs : ∀ d ∈ cs, Chunk d)
    (htrash : 0 ≤ trash) (hw : (w.length : ℤ) = trash + needed (chunkToks c cs)) :
    ∃ r, chunkLoop k (w ++ t) (c ++ joinChunks cs) trash = some r ∧
      (r = 0 ↔ Matches accepts (chunkToks c cs) w) := by
  induction k generalizing c cs w trash with
  | zero => omega
  | succ k ih =>
    have hneed := needed_chunkToks hc.body cs
    have hbody := hc.body
    obtain ⟨c0, p, rfl, hlit⟩ := hc.first
    have hp : Body p := fun d hd => hbody d (mem_cons_of_mem c0 hd)
    have hraw : rawToks (c0 :: p) = .lit (.plain c0) :: rawToks p := by
      simp [rawToks, hlit.rawTok]
    rw [length_cons] at hneed
    cases w with
    | nil => simp at hw; omega
    | cons x w =>
      simp only [length_cons] at hk hw
      have hgo := fun h => ih (c0 :: p) cs w (trash - 1) (by omega) hc hcs h (by omega)
      have hroom : trash - 1 < 0 → w.length < needed (chunkToks (c0 :: p) cs) := by omega
      rw [cons_append, cons_append, chunkLoop_cons]
      by_cases hx : toLower x = c0
      · have hfirst : ∀ u, Matches accepts (rawToks p) u →
            Matches accepts (rawToks (c0 :: p)) (x :: u) := by
          intro u hu
          rw [hraw, matches_lit_cons]
          exact ⟨(hlit.accepts x).mpr hx, hu⟩
        rw [if_neg (not_not.mpr hx)]
        obtain ⟨u, s', hs, hu, htry⟩ | ⟨hno, htry⟩ :=
          tryChunk_spec hp cs (w ++ t) (by rw [length_append]; omega)
        · -- the chunk ends before the tail begins
          obtain ⟨w', rfl⟩ : ∃ w', w = u ++ w' := by
            have hul := hp.length_eq hu
            exact prefix_of_prefix_length_le ⟨s', hs.symm⟩ (prefix_append w t)
              (by omega) |>.imp fun _ h => h.symm
          have hs' : s' = w' ++ t := by simpa using hs.symm
          cases cs with
          | nil =>
            refine ⟨0, by rw [htry], ?_⟩
            simp only [true_iff]
            rw [chunkToks, matches_star_tail]
            left
            rw [matches_append_iff]
            exact ⟨x :: u, w', rfl, hfirst u hu, matches_star.mpr ⟨[], nil_suffix, .nil⟩⟩
          | cons d cs =>
            have hd := hcs d (by simp)
            have hneed' := needed_chunkToks hd.body cs
            have hjoin := needed_joinChunks hd.body cs
            have hul := hp.length_eq hu
            simp only [length_append] at hk hw
            obtain ⟨r, hr, hiff⟩ := ih d cs w' trash (by omega) hd
              (fun e he => hcs e (by simp [he])) htrash (by omega)
            refine ⟨r, by rw [htry, hs']; exact hr, ?_⟩
            rw [hiff]
            exact (chunkToks_found hbody d cs (hfirst u hu)).symm
        · rw [htry]
          refine chunkLoop_retry (by decide) hgo hroom ?_
          rw [hraw, cons_append, matches_lit_cons]
          rintro ⟨_, hm⟩
          obtain ⟨u, v, rfl, hu, _⟩ := matches_append_iff.mp hm
          exact hno u (v ++ t) (by simp) hu
      · rw [if_pos hx]
        refine chunkLoop_retry (by decide) hgo hroom ?_
        rw [hraw, cons_append, matches_lit_cons, hlit.accepts]
        exact fun h => hx h.1

/-! ### Compiled masks -/

lemma matches_reverse (hp : Body p) :
    Matches accepts (rawToks p.reverse) u.reverse ↔ Matches accepts (rawToks p) u := by
  have hp' : Body p.reverse := fun c hc => hp c (mem_reverse.mp hc)
  rw [matches_iff_forall₂ hp'.starFree, matches_iff_forall₂ hp.starFree, rawToks, map_reverse,
    List.forall₂_reverse_iff]
  rfl

lemma matchexec_body {body} (hb : Body body) (s minlen) :
    ∃ r, matchexec junk s body minlen = some r ∧ (r = 0 ↔ Matches accepts (rawToks body) s) := by
  obtain ⟨u, s', rfl, hm, hw⟩ | ⟨hno, c, b, s', hw, hcZ, hcA, hlen⟩ := walk_body hb [] s
  · have hlen := hb.length_eq hm
    rw [append_nil] at hw
    cases s' with
    | nil =>
      rw [append_nil] at hw ⊢
      exact ⟨0, by simp [matchexec, tryHead, hw], by simpa using hm⟩
    | cons x s' =>
      refine ⟨1, by simp [matchexec, tryHead, hw], ?_⟩
      simp only [one_ne_zero, false_iff]
      intro h
      have hlen' := hb.length_eq h
      simp only [length_append, length_cons] at hlen'
      omega
  · rw [append_nil] at hw
    refine ⟨1, ?_, ?_⟩
    · cases s' <;> simp [matchexec, tryHead, hw, hcZ]
    · simpa using hno s [] (by simp)

lemma tryTail_spec (junk) (ht : Body tail) (cs : List (List UInt8)) (s : List UInt8)
    (hlen : tail.length ≤ s.length) :
    (∃ w t, s = w ++ t ∧ Matches accepts (rawToks tail) t ∧
      tryTail junk s.reverse (tail.reverse ++ joinChunks cs) = match cs with
        | [] => some (.ret 0)
        | c :: cs => some (.star (c ++ joinChunks cs))) ∨
    ((∀ w t, s = w ++ t → ¬ Matches accepts (rawToks tail) t) ∧
      tryTail junk s.reverse (tail.reverse ++ joinChunks cs) = some (.ret 1)) := by
  have ht' : Body tail.reverse := fun c hc => ht c (mem_reverse.mp hc)
  obtain ⟨u, r, hs, hm, hw⟩ | ⟨hno, c, b, r, hw, hcZ, hcA, hr⟩ :=
    walk_body ht' (joinChunks cs) s.reverse
  · refine .inl ⟨r.reverse, u.reverse, ?_, ?_, ?_⟩
    · rw [← reverse_append, ← hs, reverse_reverse]
    · rwa [← matches_reverse ht, reverse_reverse]
    rw [tryTail, hw]
    cases cs with
    | nil => simp [joinChunks]
    | cons c cs =>
      rw [joinChunks_cons]
      cases r <;> simp [toLower_ne_Z]
  · refine .inr ⟨?_, ?_⟩
    · rintro w t rfl hm
      exact hno t.reverse w.reverse reverse_append ((matches_reverse ht).mpr hm)
    · cases r with
      | nil => exact absurd (hr rfl) (by simpa using hlen)
      | cons x r => simp [tryTail, hw, hcZ]

lemma matches_rest_nil (hcs : ∀ c ∈ cs, Chunk c) (ht : Body tail) :
    Matches accepts (rawToks (joinChunks cs) ++ .star :: rawToks tail) [] ↔
      tail.reverse ++ joinChunks cs = [] := by
  constructor
  · intro h
    have hle := h.needed_le
    rw [needed_rest ht, length_nil] at hle
    obtain rfl : tail = [] := length_eq_zero_iff.mp (by omega)
    cases cs with
    | nil => rfl
    | cons c cs =>
      obtain ⟨d, r, rfl, _⟩ := (hcs c (by simp)).first
      rw [needed_joinChunks (hcs _ (by simp)).body, length_cons] at hle
      omega
  · intro h
    obtain ⟨htl, hcs⟩ := append_eq_nil_iff.mp h
    rw [hcs, reverse_eq_nil_iff.mp htl]
    exact matches_star.mpr ⟨[], nil_suffix, .nil⟩

lemma matchexec_rest (junk) (hcs : ∀ c ∈ cs, Chunk c) (ht : Body tail) (h s : List UInt8)
    {trash : ℤ} (htrash : (s.length : ℤ) = trash + needed (rawToks (joinChunks cs)) + tail.length)
    (h0 : 0 ≤ trash) :
    ∃ r, (match tryTail junk (h ++ s).reverse (tail.reverse ++ joinChunks cs) with
        | none => none
        | some (.ret r) => some r
        | some (.star b) => chunkLoop (s.length + 1) s b trash) = some r ∧
      (r = 0 ↔ Matches accepts (rawToks (joinChunks cs) ++ .star :: rawToks tail) s) := by
  have hassoc : rawToks (joinChunks cs) ++ .star :: rawToks tail
      = (rawToks (joinChunks cs) ++ [.star]) ++ rawToks tail := by simp
  have hlen : tail.length ≤ (h ++ s).length := by rw [length_append]; omega
  obtain ⟨w, t, hs, hm, htry⟩ | ⟨hno, htry⟩ := tryTail_spec junk ht cs (h ++ s) hlen
  · -- the tail does not reach into the head
    have htl := ht.length_eq hm
    obtain ⟨w', rfl⟩ : t <:+ s :=
      suffix_of_suffix_length_le ⟨w, hs.symm⟩ (suffix_append h s) (by omega)
    rw [length_append] at htrash
    have hfront : Matches accepts (rawToks (joinChunks cs) ++ .star :: rawToks tail) (w' ++ t) ↔
        Matches accepts (rawToks (joinChunks cs) ++ [.star]) w' := by
      rw [hassoc, matches_append_iff]
      constructor
      · rintro ⟨u, v, huv, hu, hv⟩
        rwa [(append_inj' huv (by rw [htl, ht.length_eq hv])).1]
      · exact fun hw => ⟨w', t, rfl, hw, hm⟩
    rw [hfront, htry]
    cases cs with
    | nil => exact ⟨0, rfl, by simpa [joinChunks, rawToks] using matches_star.mpr ⟨[], by simp⟩⟩
    | cons c cs =>
      have hc := hcs c (by simp)
      have hshape : rawToks (joinChunks (c :: cs)) ++ [.star] = chunkToks c cs := by
        simp [joinChunks_cons, chunkToks, rawToks]
      rw [needed_joinChunks hc.body] at htrash
      rw [hshape]
      exact chunkLoop_spec _ c cs w' t trash (by rw [length_append]; omega) hc
        (fun d hd => hcs d (by simp [hd])) h0 (by rw [needed_chunkToks hc.body]; omega)
  · refine ⟨1, by rw [htry], ?_⟩
    simp only [one_ne_zero, false_iff]
    rw [hassoc]
    intro hm
    obtain ⟨u, v, rfl, _, hv⟩ := matches_append_iff.mp hm
    exact hno (h ++ u) v (by simp) hv

lemma matchexec_stars (junk) {head} (hh : Body head) (hcs : ∀ c ∈ cs, Chunk c)
    (ht : Body tail) (s) (minlen : ℤ)
    (hmin : minlen = head.length + needed (rawToks (joinChunks cs)) + tail.length) :
    ∃ r, matchexec junk s (head ++ ch 'Z' :: (tail.reverse ++ joinChunks cs)) minlen = some r ∧
      (r = 0 ↔ Matches accepts
        (rawToks head ++ (rawToks (joinChunks cs) ++ .star :: rawToks tail)) s) := by
  obtain ⟨h, s, rfl, hm, hw⟩ | ⟨hno, c, b, s', hw, hcZ, _, _⟩ :=
    walk_body hh (ch 'Z' :: (tail.reverse ++ joinChunks cs)) s
  · have hhl := hh.length_eq hm
    have hrest : Matches accepts
        (rawToks head ++ (rawToks (joinChunks cs) ++ .star :: rawToks tail)) (h ++ s) ↔
        Matches accepts (rawToks (joinChunks cs) ++ .star :: rawToks tail) s := by
      rw [matches_append_iff]
      constructor
      · rintro ⟨u, v, huv, hu, hv⟩
        rwa [(body_split hh hm hu huv).2]
      · exact fun hs => ⟨h, s, rfl, hm, hs⟩
    rw [walk_star] at hw
    rw [hrest]
    cases s with
    | nil =>
      rw [matches_rest_nil hcs ht]
      rw [append_nil] at hw ⊢
      by_cases hnil : tail.reverse ++ joinChunks cs = []
      · rw [hnil] at hw ⊢
        exact ⟨0, by simp [matchexec, tryHead, hw], by simp⟩
      · exact ⟨1, by simp [matchexec, tryHead, hw, hnil], by simp [hnil]⟩
    | cons x s =>
      have hhead : tryHead (h ++ x :: s) (head ++ ch 'Z' :: (tail.reverse ++ joinChunks cs))
          = .star (x :: s) (tail.reverse ++ joinChunks cs) := by
        rw [tryHead, hw]
        rfl
      rw [matchexec, hhead]
      simp only
      split_ifs with hneg
      · refine ⟨2, rfl, ?_⟩
        simp only [OfNat.ofNat_ne_zero, false_iff]
        intro hmatch
        have hle := hmatch.needed_le
        rw [needed_rest ht] at hle
        rw [length_append] at hneg
        omega
      · refine matchexec_rest junk hcs ht h (x :: s) ?_ (by omega)
        rw [length_append]
        push_cast
        omega
  · refine ⟨1, ?_, ?_⟩
    · cases s' <;> simp [matchexec, tryHead, hw, hcZ]
    simp only [one_ne_zero, false_iff]
    intro h
    obtain ⟨u, v, huv, hu, _⟩ := matches_append_iff.mp h
    exact hno u v huv hu

/-- **`matchexec` on a mask compiled by `matchcomp`** returns, and returns `0`
exactly on the strings that match the mask. -/
theorem matchexec_matchcomp (junk : UInt8) (mask s : List UInt8) :
    ∃ r, matchexec junk s (matchcomp (some mask)).cmask (matchcomp (some mask)).minlen = some r ∧
      (r = 0 ↔ GlobMatches mask s) := by
  obtain ⟨body, hb, hc, hsame⟩ | ⟨head, cs, tail, hh, hcs, ht, hc, hsame, hmin⟩ :=
    matchcomp_spec mask
  · rw [hc, GlobMatches, hsame s]
    exact matchexec_body junk hb s _
  · rw [hc, GlobMatches, hsame s]
    exact matchexec_stars junk hh hcs ht s _ (by exact_mod_cast hmin)

lemma globToks_eq {mask} (h : ch '\\' ∉ mask) : globToks mask = maskToks mask := by
  induction mask with
  | nil => rfl
  | cons c m ih =>
    rw [mem_cons, not_or] at h
    rw [globToks.eq_def, maskToks.eq_def]
    simp [ih h.2, Ne.symm h.1]

/-- **The two matchers agree** on masks without escapes. -/
theorem matchexec_iff_match (junk : UInt8) (mask s : List UInt8) (h : ch '\\' ∉ mask) :
    ∃ r r', matchexec junk s (matchcomp (some mask)).cmask (matchcomp (some mask)).minlen = some r ∧
      ircMatch mask s = some r' ∧ (r = 0 ↔ r' = 0) := by
  obtain ⟨r', hr', hiff⟩ := ircMatch_noEscape h s
  rw [MaskMatches, ← globToks_eq h] at hiff
  obtain ⟨body, hb, hc, hsame⟩ | ⟨head, cs, tail, hh, hcs, ht, hc, hsame, hmin⟩ :=
    matchcomp_spec mask
  · obtain ⟨r, hr, hexec⟩ := matchexec_body junk hb s (matchcomp (some mask)).minlen
    exact ⟨r, r', hc ▸ hr, hr', by rw [hexec, hiff, hsame s]⟩
  · obtain ⟨r, hr, hexec⟩ := matchexec_stars junk hh hcs ht s (matchcomp (some mask)).minlen
      (by exact_mod_cast hmin)
    exact ⟨r, r', hc ▸ hr, hr', by rw [hexec, hiff, hsame s]⟩

theorem matchexec_iff_match_star : ∃ r r', matchexec 0 (str "aXb") (matchcomp (str "A*b")).cmask
    (matchcomp (str "A*b")).minlen = some r ∧ ircMatch (str "A*b") (str "aXb") = some r' ∧
      (r = 0 ↔ r' = 0) :=
  matchexec_iff_match 0 _ _ (by decide)

end Ircu
