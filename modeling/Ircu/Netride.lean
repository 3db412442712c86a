import Ircu.Chattr

/-!
The net riders of a `BURST`: local members of a channel that are kicked because the channel of the
other side has a key, or another mode, that they have not come in by.

`netride_modes` of `m_burst.c` reads the mode string before `mode_parse` does, and has to give `k`
the same parameter. It knows of the parameters of `k` and `l` only, and compares every `k`, of which
`mode_parse` uses the first.

* `slots`, `slot`: which parameters the two take for keys.
* `fed_iff`: they are the same if no other mode with a parameter stands before the `k`, there is no
  second `k` and the parameters do not run out.
-/

namespace Ircu.Netride

open List

variable {c : UInt8} {m : List UInt8} {params : List (List UInt8)} {currKey : List UInt8}

/-! ### The burst -/

def KEYLEN : ℕ := 23

/-- The modes that `netride_modes` finds. -/
structure Modes where
  inviteonly : Bool
  key : Bool
  regonly : Bool
  tlsonly : Bool

/-- The answer `-1`, and the call of `strcmp` with the null pointer behind the parameters. -/
inductive Fault where
  | invalid
  | missing

def netrideModes (currKey : List UInt8) :
    List UInt8 → List (List UInt8) → Except Fault Modes
  | [], _ => .ok ⟨false, false, false, false⟩
  | c :: modes, parv =>
    if c = ch '-' then .error .invalid
    else if c = ch 'i' then (netrideModes currKey modes parv).map ({ · with inviteonly := true })
    else if c = ch 'k' then
      match parv.head? with
      | none => .error .missing
      | some p => (netrideModes currKey modes parv.tail).map fun r =>
          { r with key := p ≠ currKey || r.key }
    else if c = ch 'l' then netrideModes currKey modes parv.tail
    else if c = ch 'r' then (netrideModes currKey modes parv).map ({ · with regonly := true })
    else if c = ch 'Z' then (netrideModes currKey modes parv).map ({ · with tlsonly := true })
    else netrideModes currKey modes parv

/-- A member of the channel, with what the loop of `ms_burst` asks of it. -/
structure Member where
  myUser : Bool
  zombie : Bool
  oper : Bool
  account : Bool
  tls : Bool
  deriving DecidableEq

/-- The loop of `ms_burst` over the members: those that are kicked. -/
def netRiders (check : Modes) (members : List Member) : List Member :=
  if (check.key || check.inviteonly || check.regonly || check.tlsonly) = false then []
  else members.filter fun x => x.myUser && !x.zombie &&
    !(!check.key && (!check.inviteonly || x.oper) && (!check.regonly || x.account) &&
      (!check.tlsonly || x.tls))

/-- The loop of `ms_burst` over its parameters, up to the first mode string. -/
def netRide (currKey : List UInt8) (members : List Member) :
    List (List UInt8) → Except Fault (List Member)
  | [] => .ok []
  | p :: parv =>
    if p.head? ≠ some (ch '+') then netRide currKey members parv
    else (netrideModes currKey p parv).map fun check => netRiders check members

/-! ### The key that `mode_parse` uses -/

def isCleanKey (s : List UInt8) : Bool :=
  s ≠ [] ∧ s.head? ≠ some (ch ':') ∧
    (s.take (KEYLEN + 1)).all (fun c => ch ' ' < c ∧ c ≠ ch ',') = true ∧ s.length ≤ KEYLEN

/-- The modes other than `k` and `l` for which `mode_parse` takes a parameter. -/
def takers : List UInt8 := str "AUbov"

/-- The parameter that `mode_parse_key` looks at, in a string from a server, with `dir`. -/
def keyParam : Bool → List UInt8 → List (List UInt8) → Option (List UInt8)
  | _, [], _ => none
  | add, c :: modestr, parv =>
    if c = ch '+' then keyParam true modestr parv
    else if c = ch '-' then keyParam false modestr parv
    else if c = ch 'k' then
      match parv, add with
      | [], _ => keyParam add modestr []
      -- `DONE_KEY_ADD`: what is left of the string does not change the key any more
      | t :: _, true => some t
      | _ :: parv, false => keyParam false modestr parv
    else if c = ch 'l' ∧ add ∨ c ∈ takers then keyParam add modestr parv.tail
    else keyParam add modestr parv

/-- The key that `mode_parse` uses. -/
def modeParse (m : List UInt8) (params : List (List UInt8)) : Option (List UInt8) :=
  (keyParam true m params).filter isCleanKey

/-- A member rides, if the key of the burst differs or not. -/
def Member.rides (m : List UInt8) (differs : Bool) (x : Member) : Bool :=
  x.myUser && !x.zombie && (differs || m.contains (ch 'i') && !x.oper ||
    m.contains (ch 'r') && !x.account || m.contains (ch 'Z') && !x.tls)

/-- No mode with a parameter other than `l` stands before a `k`, which has one of the `n`
parameters, and there is no other `k`. -/
def Fed : List UInt8 → ℕ → Prop
  | [], _ => True
  | c :: m, n =>
    if c = ch 'k' then 0 < n ∧ ch 'k' ∉ m else if c = ch 'l' then Fed m (n - 1)
    else if c ∈ takers then ch 'k' ∉ m else Fed m n

/-! ### Which parameters are taken for keys -/

/-- The parameters that `netride_modes` compares. -/
def slots : ℕ → List UInt8 → List ℕ
  | _, [] => []
  | i, c :: m =>
    if c = ch 'k' then i :: slots (i + 1) m else if c = ch 'l' then slots (i + 1) m else slots i m

/-- The parameter that `mode_parse` uses. -/
def slot : ℕ → List UInt8 → Option ℕ
  | _, [] => none
  | i, c :: m =>
    if c = ch 'k' then some i else if c = ch 'l' then slot (i + 1) m
    else if c ∈ takers then slot (i + 1) m else slot i m

lemma netrideModes_eq (currKey : List UInt8) (params : List (List UInt8)) (hm : ch '-' ∉ m)
    (i : ℕ) :
    netrideModes currKey m (params.drop i) =
      if ∀ j ∈ slots i m, j < params.length then
        .ok ⟨m.contains (ch 'i'), (slots i m).any (fun j => params[j]? ≠ some currKey),
          m.contains (ch 'r'), m.contains (ch 'Z')⟩
      else .error .missing := by
  induction m generalizing i with
  | nil => simp [netrideModes, slots]
  | cons c m ih =>
    rw [mem_cons, not_or] at hm
    rw [netrideModes, if_neg (Ne.symm hm.1), slots]
    by_cases hk : c = ch 'k'
    · subst hk
      rw [if_neg (by decide), if_pos rfl, if_pos rfl, head?_drop, tail_drop]
      cases hi : params[i]? with
      | none =>
        have hlen := List.getElem?_eq_none_iff.mp hi
        rw [if_neg fun hall => absurd (hall i mem_cons_self) (by omega)]
      | some p =>
        obtain ⟨hlt, -⟩ := List.getElem?_eq_some_iff.mp hi
        simp only [ih hm.2, forall_mem_cons, hlt, true_and]
        split_ifs <;> simp +decide [Except.map, hi]
    simp only [if_neg hk]
    by_cases hl : c = ch 'l'
    · subst hl
      simp only [if_neg (show ch 'l' ≠ ch 'i' by decide), if_pos, tail_drop, ih hm.2]
      simp +decide
    simp only [if_neg hl, ih hm.2]
    by_cases hflag : c = ch 'i' ∨ c = ch 'r' ∨ c = ch 'Z'
    · rcases hflag with rfl | rfl | rfl <;> split_ifs <;> simp +decide [Except.map] at *
    · push Not at hflag
      rw [if_neg hflag.1, if_neg hflag.2.1, if_neg hflag.2.2]
      simp [hflag.1.symm, hflag.2.1.symm, hflag.2.2.symm]

lemma keyParam_nil (add : Bool) : keyParam add m [] = none := by
  induction m generalizing add with
  | nil => rfl
  | cons c m ih =>
    unfold keyParam
    split_ifs <;> simp [ih]

lemma keyParam_eq (params : List (List UInt8)) (hm : ch '-' ∉ m) (i : ℕ) :
    keyParam true m (params.drop i) = (slot i m).bind fun j => params[j]? := by
  induction m generalizing i with
  | nil => rfl
  | cons c m ih =>
    rw [mem_cons, not_or] at hm
    unfold keyParam
    rw [slot]
    by_cases hp : c = ch '+'
    · subst hp
      simp +decide [ih hm.2]
    rw [if_neg hp, if_neg (Ne.symm hm.1)]
    simp only [and_true, tail_drop]
    by_cases hk : c = ch 'k'
    · rw [if_pos hk, if_pos hk, Option.bind_some, ← head?_drop]
      cases params.drop i with
      | nil => exact keyParam_nil true
      | cons t rest => rfl
    rw [if_neg hk, if_neg hk]
    by_cases hl : c = ch 'l'
    · rw [if_pos (.inl hl), if_pos hl, ih hm.2]
    rw [if_neg hl]
    split_ifs with hor htake htake
    · exact ih hm.2 (i + 1)
    · exact absurd (hor.resolve_left hl) htake
    · exact absurd (.inr htake) hor
    · exact ih hm.2 i

lemma slots_eq_nil_iff (i : ℕ) : slots i m = [] ↔ ch 'k' ∉ m := by
  induction m generalizing i with
  | nil => simp [slots]
  | cons c m ih =>
    rw [slots, mem_cons, not_or]
    split_ifs with hk hl
    · simp [hk]
    all_goals simp [ih, Ne.symm hk]

lemma slot_eq_none_iff (i : ℕ) : slot i m = none ↔ ch 'k' ∉ m := by
  induction m generalizing i with
  | nil => simp [slot]
  | cons c m ih =>
    rw [slot, mem_cons, not_or]
    split_ifs with hk hl htake
    · simp [hk]
    all_goals simp [ih, Ne.symm hk]

/-- Behind another mode with a parameter, the first `k` gets different ones. -/
lemma slots_ne_of_lt (hk : ch 'k' ∈ m) {i i' : ℕ} (hlt : i < i') :
    slots i m ≠ (slot i' m).toList := by
  induction m generalizing i i' with
  | nil => cases hk
  | cons c m ih =>
    rw [slots, slot]
    by_cases hc : c = ch 'k'
    · rw [if_pos hc, if_pos hc]
      intro heq
      have := (cons.inj heq).1
      omega
    have hin := mem_of_ne_of_mem (Ne.symm hc) hk
    rw [if_neg hc, if_neg hc]
    split_ifs <;> exact ih hin (by omega)

lemma slots_nodup (i : ℕ) : (slots i m).Nodup ∧ ∀ j ∈ slots i m, i ≤ j := by
  induction m generalizing i with
  | nil => exact ⟨nodup_nil, nofun⟩
  | cons c m ih =>
    obtain ⟨hnodup, hle⟩ := ih (i + 1)
    rw [slots]
    split_ifs
    · refine ⟨nodup_cons.mpr ⟨fun hin => ?_, hnodup⟩, forall_mem_cons.mpr ⟨le_rfl, fun j hj => ?_⟩⟩
      · have := hle i hin
        omega
      · exact Nat.le_of_succ_le (hle j hj)
    · exact ⟨hnodup, fun j hj => Nat.le_of_succ_le (hle j hj)⟩
    · exact ih i

lemma fed_iff {n : ℕ} (i : ℕ) :
    Fed m (n - i) ↔ slots i m = (slot i m).toList ∧ ∀ j ∈ slots i m, j < n := by
  induction m generalizing i with
  | nil => simp [Fed, slots, slot]
  | cons c m ih =>
    rw [Fed, slots, slot]
    split_ifs with hk hl htake
    · rw [← slots_eq_nil_iff (i + 1), Option.toList_some, cons.injEq]
      constructor
      · rintro ⟨hpos, hnil⟩
        simp only [hnil, mem_singleton, forall_eq]
        exact ⟨⟨trivial, trivial⟩, by omega⟩
      · rintro ⟨⟨-, hnil⟩, hlt⟩
        have := hlt i mem_cons_self
        exact ⟨by omega, hnil⟩
    · exact ih (i + 1)
    · constructor
      · intro hnone
        rw [(slots_eq_nil_iff i).mpr hnone, (slot_eq_none_iff (i + 1)).mpr hnone]
        exact ⟨rfl, nofun⟩
      · exact fun heq hin => slots_ne_of_lt hin (Nat.lt_succ_self i) heq.1
    · exact ih i

/-! ### Who is kicked -/

lemma netRiders_eq (members : List Member) (differs : Bool) :
    netRiders ⟨m.contains (ch 'i'), differs, m.contains (ch 'r'), m.contains (ch 'Z')⟩ members =
      members.filter (Member.rides m differs) := by
  rw [netRiders]
  split_ifs with hnone
  · simp only [Bool.or_eq_false_iff] at hnone
    obtain ⟨⟨⟨hkey, hi⟩, hr⟩, hz⟩ := hnone
    refine (filter_eq_nil_iff.mpr fun x _ => ?_).symm
    rw [Member.rides, hkey, hi, hr, hz]
    simp
  · refine filter_congr fun x _ => ?_
    rw [Member.rides]
    cases differs <;> cases m.contains (ch 'i') <;> cases m.contains (ch 'r') <;>
      cases m.contains (ch 'Z') <;> simp

lemma netRide_eq {before : List (List UInt8)} (hbefore : ∀ p ∈ before, p.head? ≠ some (ch '+'))
    (hplus : m.head? = some (ch '+')) (hm : ch '-' ∉ m) (members : List Member) :
    netRide currKey members (before ++ m :: params) =
      if ∀ j ∈ slots 0 m, j < params.length then
        .ok (members.filter (Member.rides m ((slots 0 m).any fun j => params[j]? ≠ some currKey)))
      else .error .missing := by
  induction before with
  | nil =>
    have heq := netrideModes_eq currKey params hm 0
    rw [drop_zero] at heq
    rw [nil_append, netRide, if_neg (not_not.mpr hplus), heq]
    split_ifs
    · rw [← netRiders_eq]
      rfl
    · rfl
  | cons p before ih =>
    rw [forall_mem_cons] at hbefore
    rw [cons_append, netRide, if_pos hbefore.1, ih hbefore.2]

lemma modeParse_eq (hm : ch '-' ∉ m) (hclean : ∀ t ∈ keyParam true m params, isCleanKey t) :
    modeParse m params = (slot 0 m).bind fun j => params[j]? := by
  have heq := keyParam_eq params hm 0
  rw [drop_zero] at heq
  rw [modeParse, ← heq]
  cases hkey : keyParam true m params with
  | none => rfl
  | some t => exact Option.filter_some_pos (hclean t hkey)

lemma clean_keyParam (hm : ch '-' ∉ m) (h : ∀ t ∈ params, isCleanKey t) :
    ∀ t ∈ keyParam true m params, isCleanKey t := by
  intro t ht
  have heq := keyParam_eq params hm 0
  rw [drop_zero, ht, eq_comm, Option.bind_eq_some_iff] at heq
  obtain ⟨j, -, hj⟩ := heq
  exact h t (mem_of_getElem? hj)

/-- If one parameter is not like the others and is compared with them, it has to be the one that is
used. -/
lemma slot_of_mem {n j : ℕ} (hj : j ∈ slots 0 m) (hlt : j < n)
    (h : ∀ params : List (List UInt8), params.length = n → (∀ t ∈ params, isCleanKey t) →
      ∀ currKey, (slots 0 m).any (fun j => params[j]? ≠ some currKey) =
        ((slot 0 m).bind fun j => params[j]?).any (· ≠ currKey)) : slot 0 m = some j := by
  have hclean : ∀ t ∈ (replicate n (str "a")).set j (str "b"), isCleanKey t := by
    intro t ht
    rcases mem_or_eq_of_mem_set ht with ht | rfl
    · rw [eq_of_mem_replicate ht]
      decide
    · decide
  have hdiffers : ((replicate n (str "a")).set j (str "b"))[j]? = some (str "b") := by
    rw [getElem?_set_self (by simpa using hlt)]
  have hset := h _ (by simp) hclean (str "a")
  rw [any_eq_true.mpr ⟨j, hj, by rw [hdiffers]; decide⟩] at hset
  cases hslot : slot 0 m with
  | none => simp [hslot] at hset
  | some i =>
    by_contra hne
    rw [hslot, Option.bind_some, getElem?_set_ne fun heq => hne (congrArg some heq.symm),
      getElem?_replicate] at hset
    split_ifs at hset <;> simp at hset

/-- The member that is kicked for a key only. -/
def keyRider : Member := ⟨true, false, true, true, true⟩

end Ircu.Netride
