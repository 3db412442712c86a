import Ircu.Heap.Roster
import Ircu.Ledger.Basic
import Ircu.Token.Basic

/-!
Lists of records that are accounted for in a ledger. What stands in the ledger is a part of the
record.

* `Balanced.without`, `Balanced.others`: a record, or all of a kind, come to their end and are taken
  off the list;
* `Holds.seek`: a handle is found that no record has.
-/

variable {V W R D : Type*} {r : Roster V} {xs : List (ℕ × V)}

namespace Ledger.Balanced

open Roster List

variable {fits : W → D → Prop} {book : List (Posting W R D)} {f : V → W} {next a : ℕ} {v : V}

lemma without (h : Balanced fits book (xs.map fun x => (x.1, f x.2)) next) (hv : (a, v) ∈ xs)
    {e : Posting W R D} (he : (∃ res, e = .settled a res) ∨ ∃ d, e = .dropped a d ∧ fits (f v) d) :
    Balanced fits (e :: book) ((without a xs).map fun x => (x.1, f x.2)) next := by
  refine h.ended (mem_map.mpr ⟨_, hv, rfl⟩) (fun y => ?_) he
  simp only [mem_map, mem_without]
  constructor
  · rintro ⟨x, ⟨hx, hne⟩, rfl⟩
    exact ⟨⟨x, hx, rfl⟩, hne⟩
  · rintro ⟨⟨x, hx, rfl⟩, hne⟩
    exact ⟨x, ⟨hx, hne⟩, rfl⟩

lemma others (h : Balanced fits book (xs.map fun x => (x.1, f x.2)) next) (hr : Holds r xs)
    (k : V → Bool) {e : ℕ → Posting W R D} (he : ∀ x ∈ xs, k x.2 = true →
      (∃ res, e x.1 = .settled x.1 res) ∨ ∃ d, e x.1 = .dropped x.1 d ∧ fits (f x.2) d) :
    Balanced fits (((xs.filter fun x => k x.2).map fun x => e x.1).reverse ++ book)
      ((others k xs).map fun x => (x.1, f x.2)) next := by
  have haddrs : ((xs.filter fun x => k x.2).map fun x => (x.1, f x.2)).map Prod.fst =
      addrs (xs.filter fun x => k x.2) := map_map
  have hbook : (xs.filter fun x => k x.2).map (fun x => e x.1) =
      ((xs.filter fun x => k x.2).map fun x => (x.1, f x.2)).map fun y => e y.1 := by
    rw [map_map]
    rfl
  rw [hbook]
  refine h.endedAll ?_ (filter_sublist.map _).subset (fun y => ?_) fun y hy => ?_
  · rw [haddrs]
    exact hr.nodup.sublist (filter_sublist.map _)
  · rw [haddrs]
    simp only [mem_map]
    constructor
    · rintro ⟨x, hx, rfl⟩
      obtain ⟨hin, hout⟩ := hr.mem_others.mp hx
      exact ⟨⟨x, hin, rfl⟩, hout⟩
    · rintro ⟨⟨x, hin, rfl⟩, hout⟩
      exact ⟨x, hr.mem_others.mpr ⟨hin, hout⟩, rfl⟩
  · obtain ⟨x, hx, rfl⟩ := mem_map.mp hy
    obtain ⟨hin, hk⟩ := mem_filter.mp hx
    exact he x hin hk

end Ledger.Balanced

open Option

lemma Roster.Holds.seek (hr : r.Holds xs) (key : V → ℕ) {modulus} (last : ℕ)
    (hmod : xs.length + 2 ≤ modulus) :
    ∃ id, Token.seek modulus (fun id => (r.find fun v => key v = id).map isSome)
      (xs.length + 2) last = some id := by
  have hused : ∀ id, (r.find fun v => key v = id).map isSome =
      some (decide (id ∈ xs.map fun x => key x.2)) := by
    intro id
    rw [hr.find, map_some, isSome_map]
    refine congrArg some ?_
    rw [Bool.eq_iff_iff]
    simp
  obtain ⟨id, hid, -⟩ := Token.seek_eq hused last (by simp) hmod
  exact ⟨id, hid⟩
