import Mathlib.Tactic

/-!
Decoding a stream that arrives in pieces.

A parser looks at a window of at most `limit` items at the front of what has not been
used yet. It needs more, or has used some number of items, perhaps more than there are
yet, or stops. What it says once it does not need more is not changed by what comes
behind (`stable`).
-/

namespace Ircu.Decoder

open List

variable {α ε ω : Type*}

inductive Verdict (ε ω : Type*) where
  | more
  | used (n : ℕ) (out : List ε)
  | stop (why : ω) (out : List ε)

/-- A parser with its window, and what it stops with when a full window is not enough. -/
structure Parser (α ε ω : Type*) where
  parse : List α → Verdict ε ω
  limit : ℕ
  full : ω
  used_pos : ∀ {s n out}, parse s = .used n out → 0 < n
  stable : ∀ {s}, parse s ≠ .more → ∀ t, parse (s ++ t) = parse s

/-- Where decoding stands: so many items of what comes are still to be left out, and these
have not been used yet; or it has stopped. -/
inductive Rest (α ω : Type*) where
  | wait (skip : ℕ) (left : List α)
  | stop (why : ω)
deriving DecidableEq

structure Result (α ε ω : Type*) where
  out : List ε
  rest : Rest α ω

def Result.after (out : List ε) (r : Result α ε ω) : Result α ε ω := ⟨out ++ r.out, r.rest⟩

@[simp] lemma Result.after_nil (r : Result α ε ω) : r.after [] = r := rfl

namespace Parser

variable (P : Parser α ε ω)

def rounds : ℕ → List α → Result α ε ω
  | 0, s => ⟨[], .wait 0 s⟩
  | fuel + 1, s =>
    if s = [] then ⟨[], .wait 0 []⟩
    else
      match P.parse (s.take P.limit) with
      | .more => ⟨[], if P.limit ≤ s.length then .stop P.full else .wait 0 s⟩
      | .stop why out => ⟨out, .stop why⟩
      | .used n out =>
        if n ≤ s.length then (rounds fuel (s.drop n)).after out
        else ⟨out, .wait (n - s.length) []⟩

def scan (s : List α) : Result α ε ω := P.rounds s.length s

def feed (skip : ℕ) (left t : List α) : Result α ε ω :=
  if skip ≤ t.length then P.scan (left ++ t.drop skip) else ⟨[], .wait (skip - t.length) left⟩

def andThen (r : Result α ε ω) (t : List α) : Result α ε ω :=
  match r.rest with
  | .wait skip left => (P.feed skip left t).after r.out
  | .stop _ => r

def feedAll (pieces : List (List α)) : Result α ε ω :=
  pieces.foldl P.andThen ⟨[], .wait 0 []⟩

variable {P} {s t left : List α} {n skip fuel : ℕ} {out : List ε} {why : ω}

/-! ### One round -/

lemma rounds_fuel {a b} (ha : s.length ≤ a) (hb : s.length ≤ b) : P.rounds a s = P.rounds b s := by
  induction a generalizing s b with
  | zero =>
    obtain rfl : s = [] := length_eq_zero_iff.1 (Nat.le_zero.1 ha)
    cases b <;> rfl
  | succ a ih =>
    by_cases hs : s = []
    · subst hs
      cases b <;> rfl
    obtain ⟨b, rfl⟩ : ∃ b', b = b' + 1 :=
      Nat.exists_eq_succ_of_ne_zero fun h => hs (length_eq_zero_iff.1 (by omega))
    rw [rounds, rounds, if_neg hs, if_neg hs]
    cases hv : P.parse (s.take P.limit) with
    | more | stop why out => rfl
    | used n out =>
      have hn := P.used_pos hv
      have hlen : (s.drop n).length ≤ a ∧ (s.drop n).length ≤ b := by
        rw [length_drop]
        omega
      simp only [ih hlen.1 hlen.2]

@[simp] lemma scan_nil : P.scan [] = ⟨[], .wait 0 []⟩ := rfl

lemma scan_eq (hs : s ≠ []) : P.scan s = match P.parse (s.take P.limit) with
    | .more => ⟨[], if P.limit ≤ s.length then .stop P.full else .wait 0 s⟩
    | .stop why out => ⟨out, .stop why⟩
    | .used n out =>
      if n ≤ s.length then (P.scan (s.drop n)).after out else ⟨out, .wait (n - s.length) []⟩ := by
  obtain ⟨k, hk⟩ : ∃ k, s.length = k + 1 :=
    Nat.exists_eq_succ_of_ne_zero fun h => hs (length_eq_zero_iff.1 h)
  rw [scan, hk, rounds, if_neg hs]
  cases hv : P.parse (s.take P.limit) with
  | more => simp only [hk]
  | stop why out => rfl
  | used n out =>
    have hn := P.used_pos hv
    have hlen : (s.drop n).length ≤ k := by
      rw [length_drop]
      omega
    simp only [rounds_fuel hlen le_rfl, hk]
    rfl

lemma parse_take_append (h : P.parse (s.take P.limit) ≠ .more) :
    P.parse ((s ++ t).take P.limit) = P.parse (s.take P.limit) := by
  rw [take_append]
  exact P.stable h _

/-- Induction along the rounds of decoding. -/
theorem scan_induction (P : Parser α ε ω) {motive : List α → Prop} (nil : motive [])
    (more : ∀ s, s ≠ [] → P.parse (s.take P.limit) = .more → motive s)
    (stop : ∀ s why out, s ≠ [] → P.parse (s.take P.limit) = .stop why out → motive s)
    (used : ∀ s n out, s ≠ [] → P.parse (s.take P.limit) = .used n out → n ≤ s.length →
      motive (s.drop n) → motive s)
    (beyond : ∀ s n out, s ≠ [] → P.parse (s.take P.limit) = .used n out → s.length < n → motive s)
    (s) : motive s := by
  induction hm : s.length using Nat.strong_induction_on generalizing s with
  | _ m ih =>
    by_cases hs : s = []
    · exact hs ▸ nil
    cases hv : P.parse (s.take P.limit) with
    | more => exact more s hs hv
    | stop why out => exact stop s why out hs hv
    | used n out =>
      have hn := P.used_pos hv
      rcases Nat.lt_or_ge s.length n with hlt | hle
      · exact beyond s n out hs hv hlt
      · refine used s n out hs hv hle (ih (s.drop n).length ?_ _ rfl)
        rw [length_drop]
        omega

lemma scan_more (hs : s ≠ []) (h : P.parse (s.take P.limit) = .more) :
    P.scan s = ⟨[], if P.limit ≤ s.length then .stop P.full else .wait 0 s⟩ := by
  rw [scan_eq hs, h]

lemma scan_stop (hs : s ≠ []) (h : P.parse (s.take P.limit) = .stop why out) :
    P.scan s = ⟨out, .stop why⟩ := by
  rw [scan_eq hs, h]

lemma scan_used (hs : s ≠ []) (h : P.parse (s.take P.limit) = .used n out) (hn : n ≤ s.length) :
    P.scan s = (P.scan (s.drop n)).after out := by
  rw [scan_eq hs, h]
  exact if_pos hn

lemma scan_beyond (hs : s ≠ []) (h : P.parse (s.take P.limit) = .used n out)
    (hn : s.length < n) : P.scan s = ⟨out, .wait (n - s.length) []⟩ := by
  rw [scan_eq hs, h]
  exact if_neg (Nat.not_le.2 hn)

/-! ### Where decoding stands -/

lemma scan_wait (h : P.scan s = ⟨out, .wait skip left⟩) :
    (left = [] ∨ left.length < P.limit) ∧ (skip ≠ 0 → left = [] ∧ s ≠ []) := by
  induction s using scan_induction P generalizing out with
  | nil =>
    simp only [scan_nil, Result.mk.injEq, Rest.wait.injEq] at h
    simp [← h.2.1, ← h.2.2]
  | more s hs hv =>
    rw [scan_more hs hv] at h
    split at h
    · cases h
    · rename_i hlt
      simp only [Result.mk.injEq, Rest.wait.injEq] at h
      simp [← h.2.1, ← h.2.2, Nat.not_le.1 hlt]
  | stop s why out' hs hv =>
    rw [scan_stop hs hv] at h
    cases h
  | used s n out' hs hv hn ih =>
    rw [scan_used hs hv hn, Result.after, Result.mk.injEq] at h
    have hrest : P.scan (s.drop n) = ⟨(P.scan (s.drop n)).out, .wait skip left⟩ := by rw [← h.2]
    obtain ⟨hleft, hskip⟩ := ih hrest
    exact ⟨hleft, fun h0 => ⟨(hskip h0).1, hs⟩⟩
  | beyond s n out' hs hv hn =>
    rw [scan_beyond hs hv hn] at h
    simp only [Result.mk.injEq, Rest.wait.injEq] at h
    exact ⟨Or.inl h.2.2.symm, fun _ => ⟨h.2.2.symm, hs⟩⟩

lemma andThen_after (out r t) : P.andThen (r.after out) t = (P.andThen r t).after out := by
  rcases r with ⟨out', ⟨skip, left⟩ | ⟨why⟩⟩
  · simp [andThen, Result.after]
  · rfl

lemma foldl_andThen_after (out) (pieces : List (List α)) (r) :
    pieces.foldl P.andThen (r.after out) = (pieces.foldl P.andThen r).after out := by
  induction pieces generalizing r with
  | nil => rfl
  | cons t pieces ih => rw [foldl_cons, andThen_after, ih, foldl_cons]

lemma foldl_andThen_stop (out why) (pieces : List (List α)) :
    pieces.foldl P.andThen ⟨out, .stop why⟩ = ⟨out, .stop why⟩ := by
  induction pieces with
  | nil => rfl
  | cons t pieces ih => rwa [foldl_cons]

/-- **The stream can be cut anywhere.** -/
theorem scan_append (s t) : P.scan (s ++ t) = P.andThen (P.scan s) t := by
  induction s using scan_induction P with
  | nil => simp [andThen, feed]
  | more s hs hv =>
    rw [scan_more hs hv]
    by_cases hfull : P.limit ≤ s.length
    · have hv' : P.parse ((s ++ t).take P.limit) = .more := by
        rwa [take_append_of_le_length hfull]
      rw [if_pos hfull, scan_more (append_ne_nil_of_left_ne_nil hs t) hv', if_pos]
      · rfl
      · rw [length_append]
        omega
    · simp [if_neg hfull, andThen, feed]
  | stop s why out hs hv =>
    have hv' := (parse_take_append (t := t) (by rw [hv]; simp)).trans hv
    rw [scan_stop hs hv, scan_stop (append_ne_nil_of_left_ne_nil hs t) hv']
    rfl
  | used s n out hs hv hn ih =>
    have hv' := (parse_take_append (t := t) (by rw [hv]; simp)).trans hv
    rw [scan_used hs hv hn, scan_used (append_ne_nil_of_left_ne_nil hs t) hv'
      (by rw [length_append]; omega), drop_append_of_le_length hn, ih, andThen_after]
  | beyond s n out hs hv hn =>
    have hv' := (parse_take_append (t := t) (by rw [hv]; simp)).trans hv
    have hne := append_ne_nil_of_left_ne_nil hs t
    rw [scan_beyond hs hv hn]
    simp only [andThen, feed, nil_append]
    split
    · rename_i hle
      rw [scan_used hne hv' (by rw [length_append]; omega), drop_append,
        drop_eq_nil_of_le hn.le, nil_append]
    · rename_i hlt
      rw [scan_beyond hne hv' (by rw [length_append]; omega), length_append]
      simp [Result.after, Nat.sub_sub]

/-- **A stream that arrives in pieces is decoded as if it were one.** -/
theorem feedAll_eq_scan (pieces) : P.feedAll pieces = P.scan pieces.flatten := by
  have h : ∀ s, pieces.foldl P.andThen (P.scan s) = P.scan (s ++ pieces.flatten) := by
    induction pieces with
    | nil => simp
    | cons t pieces ih =>
      intro s
      rw [foldl_cons, ← scan_append, ih, flatten_cons, append_assoc]
  exact h []

end Parser

end Ircu.Decoder
