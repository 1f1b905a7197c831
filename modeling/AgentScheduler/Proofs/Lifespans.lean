/-
Minions by their hit points. Each round takes one from every minion that is there (`wane`), and
then those join that were made in it; `muster` is what there is after some rounds. A minion that
joins with `h` hit points in round `t` is there after round `k` exactly for `t ≤ k < t + h`
(`mem_muster_iff`), and as at most one joins in a round, with seven hit points at most, there are
never more than seven (`length_muster_le`).
-/
import AgentScheduler.Task
import Mathlib.Data.List.Induction
import Mathlib.Data.List.Nodup

namespace AgentScheduler.Arena

/-- A minion with the hit points that it has left. -/
structure Fighter where
  ref : AgentRef
  hp : Nat
  deriving DecidableEq

variable {fs new : List Fighter} {f e : Fighter} {news : List (List Fighter)} {k t : Nat}

/-! ## One round -/

/-- The minions that stay when each loses a hit point. -/
def wane (fs : List Fighter) : List Fighter :=
  fs.filterMap fun f => if 1 < f.hp then some ⟨f.ref, f.hp - 1⟩ else none

/-- The minions that leave then. -/
def fallen (fs : List Fighter) : List AgentRef := (fs.filter (·.hp ≤ 1)).map (·.ref)

theorem mem_wane : f ∈ wane fs ↔ 0 < f.hp ∧ ⟨f.ref, f.hp + 1⟩ ∈ fs := by
  simp only [wane, List.mem_filterMap, Option.ite_none_right_eq_some, Option.some.injEq]
  constructor
  · intro h
    obtain ⟨g, hg, hlt, rfl⟩ := h
    refine ⟨by simp; omega, ?_⟩
    rwa [show g.hp - 1 + 1 = g.hp by omega]
  · intro h
    exact ⟨_, h.2, by simp; omega, by simp⟩

theorem mem_fallen {a : AgentRef} : a ∈ fallen fs ↔ ∃ f ∈ fs, f.hp ≤ 1 ∧ f.ref = a := by
  simp [fallen, and_assoc]

theorem wane_cons :
    wane (f :: fs) = if 1 < f.hp then ⟨f.ref, f.hp - 1⟩ :: wane fs else wane fs := by
  by_cases hf : 1 < f.hp <;> simp [wane, hf]

theorem fallen_cons : fallen (f :: fs) = (if 1 < f.hp then [] else [f.ref]) ++ fallen fs := by
  by_cases hf : 1 < f.hp
  · simp [fallen, hf]
  · simp [fallen, hf, Nat.le_of_not_lt hf]

theorem length_wane (fs : List Fighter) : (wane fs).length + (fallen fs).length = fs.length := by
  induction fs with
  | nil => rfl
  | cons f fs ih =>
    rw [wane_cons, fallen_cons]
    by_cases hf : 1 < f.hp <;> simp [hf] <;> omega

theorem refs_wane_eq : (wane fs).map (·.ref) = (fs.filter (1 < ·.hp)).map (·.ref) := by
  induction fs with
  | nil => rfl
  | cons f fs ih =>
    rw [wane_cons]
    by_cases hf : 1 < f.hp <;> simpa [hf] using ih

/-- Those that stay are those that do not leave. -/
theorem refs_wane (hnd : (fs.map (·.ref)).Nodup) :
    (wane fs).map (·.ref) = (fs.map (·.ref)).filter fun a => a ∉ fallen fs := by
  rw [refs_wane_eq, List.filter_map]
  refine congrArg (List.map _) (List.filter_congr fun f hf => ?_)
  simp only [Function.comp_apply, decide_eq_decide, mem_fallen]
  constructor
  · intro hlt h
    obtain ⟨g, hg, hle, href⟩ := h
    have : g = f := List.inj_on_of_nodup_map hnd hg hf href
    rw [this] at hle
    omega
  · intro h
    by_contra hle
    exact h ⟨f, hf, Nat.le_of_not_lt hle, rfl⟩

/-! ## Rounds -/

/-- The minions after rounds in which these joined. -/
def muster (news : List (List Fighter)) : List Fighter :=
  news.foldl (fun fs new => wane fs ++ new) []

theorem muster_append : muster (news ++ [new]) = wane (muster news) ++ new := by
  rw [muster, List.foldl_append]
  rfl

/-- A minion that is there joined in one of the rounds, with a hit point more for every round
since. -/
theorem mem_muster (hpos : ∀ e ∈ news.flatten, 0 < e.hp) : f ∈ muster news ↔ 0 < f.hp ∧
    ∃ t new, news[t]? = some new ∧
      (⟨f.ref, f.hp + (news.length - 1 - t)⟩ : Fighter) ∈ new := by
  induction news using List.reverseRecOn generalizing f with
  | nil => simp [muster]
  | append_singleton news new ih =>
    simp only [List.flatten_append, List.mem_append] at hpos
    rw [muster_append, List.mem_append, mem_wane, ih fun e he => hpos e (.inl he)]
    constructor
    · intro h
      rcases h with ⟨hf, -, t, joined, ht, hmem⟩ | hmem
      · obtain ⟨hlt, -⟩ := List.getElem?_eq_some_iff.1 ht
        refine ⟨hf, t, joined, by rw [List.getElem?_append_left hlt, ht], ?_⟩
        rw [List.length_append, List.length_singleton]
        rwa [show f.hp + (news.length + 1 - 1 - t) = f.hp + 1 + (news.length - 1 - t) by omega]
      · refine ⟨hpos f (.inr (by simpa using hmem)), news.length, new, by simp, ?_⟩
        simpa using hmem
    · intro h
      obtain ⟨hf, t, joined, ht, hmem⟩ := h
      rw [List.length_append, List.length_singleton] at hmem
      rcases Nat.lt_or_ge t news.length with hlt | hge
      · rw [List.getElem?_append_left hlt] at ht
        refine .inl ⟨hf, Nat.succ_pos _, t, joined, ht, ?_⟩
        show (⟨f.ref, f.hp + 1 + (news.length - 1 - t)⟩ : Fighter) ∈ joined
        rwa [show f.hp + 1 + (news.length - 1 - t) = f.hp + (news.length + 1 - 1 - t) by omega]
      · rw [List.getElem?_append_right hge, List.getElem?_singleton] at ht
        split at ht
        · cases ht
          rw [show news.length + 1 - 1 - t = 0 by omega] at hmem
          exact .inr hmem
        · cases ht

/-! ## One minion -/

/-- A minion joins once. -/
theorem joined_once {t' : Nat} {new' : List Fighter} {e' : Fighter}
    (hnd : (news.flatten.map (·.ref)).Nodup) (ht : news[t]? = some new) (he : e ∈ new)
    (ht' : news[t']? = some new') (he' : e' ∈ new') (href : e'.ref = e.ref) : t' = t ∧ e' = e := by
  have hflat : e ∈ news.flatten := List.mem_flatten.2 ⟨new, List.mem_of_getElem? ht, he⟩
  have hflat' : e' ∈ news.flatten := List.mem_flatten.2 ⟨new', List.mem_of_getElem? ht', he'⟩
  obtain rfl : e' = e := List.inj_on_of_nodup_map hnd hflat' hflat href
  refine ⟨?_, rfl⟩
  obtain ⟨hlt, rfl⟩ := List.getElem?_eq_some_iff.1 ht
  obtain ⟨hlt', rfl⟩ := List.getElem?_eq_some_iff.1 ht'
  have hdisjoint := List.pairwise_iff_getElem.1 (List.nodup_flatten.1 hnd.of_map).2
  rcases Nat.lt_trichotomy t' t with hlt'' | heq | hlt''
  · exact absurd he (List.disjoint_left.1 (hdisjoint t' t hlt' hlt hlt'') he')
  · exact heq
  · exact absurd he' (List.disjoint_left.1 (hdisjoint t t' hlt hlt' hlt'') he)

/-- After `k` rounds it has lost a hit point in each of them since the one in which it joined. -/
theorem mem_muster_iff (hpos : ∀ e ∈ news.flatten, 0 < e.hp)
    (hnd : (news.flatten.map (·.ref)).Nodup) (ht : news[t]? = some new) (he : e ∈ new)
    (hk : k ≤ news.length) (hp : Nat) :
    (⟨e.ref, hp⟩ : Fighter) ∈ muster (news.take k) ↔ 0 < hp ∧ t < k ∧ hp + k = e.hp + t + 1 := by
  have hlen : (news.take k).length = k := by rw [List.length_take]; omega
  have htake : ∀ x ∈ (news.take k).flatten, 0 < x.hp := by
    intro x hx
    obtain ⟨l, hl, hxl⟩ := List.mem_flatten.1 hx
    exact hpos x (List.mem_flatten.2 ⟨l, List.mem_of_mem_take hl, hxl⟩)
  rw [mem_muster htake, hlen]
  constructor
  · intro h
    obtain ⟨hhp, t', new', ht', he'⟩ := h
    rw [List.getElem?_take] at ht'
    split at ht'
    · next hlt =>
      obtain ⟨rfl, heq⟩ := joined_once hnd ht he ht' he' rfl
      have hhit : hp + (k - 1 - t') = e.hp := congrArg Fighter.hp heq
      exact ⟨hhp, hlt, by omega⟩
    · cases ht'
  · intro h
    obtain ⟨hhp, hlt, heq⟩ := h
    refine ⟨hhp, t, new, by rw [List.getElem?_take, if_pos hlt, ht], ?_⟩
    rwa [show hp + (k - 1 - t) = e.hp by omega]

/-! ## All of them -/

/-- Each minion was made a round later than the one before it, and has had that much more time
to lose the hit points that it had at most. -/
def Aged (most : Nat) : List Fighter → Prop
  | [] => True
  | f :: fs => f.hp + fs.length ≤ most ∧ Aged most fs

namespace Aged

variable {most : Nat}

theorem mono (h : Aged most fs) : Aged (most + 1) fs := by
  induction fs with
  | nil => trivial
  | cons f fs ih => exact ⟨Nat.le_succ_of_le h.1, ih h.2⟩

theorem wane (h : Aged (most + 1) fs) : Aged most (wane fs) := by
  induction fs with
  | nil => trivial
  | cons f fs ih =>
    have hlen := length_wane fs
    have hfirst := h.1
    rw [wane_cons]
    by_cases hf : 1 < f.hp
    · rw [if_pos hf]
      refine ⟨?_, ih h.2⟩
      show f.hp - 1 + (Arena.wane fs).length ≤ most
      omega
    · rw [if_neg hf]
      exact ih h.2

theorem join (h : Aged most fs) (he : e.hp ≤ most + 1) : Aged (most + 1) (fs ++ [e]) := by
  induction fs with
  | nil => exact ⟨he, trivial⟩
  | cons f fs ih =>
    have hfirst := h.1
    refine ⟨?_, ih h.2⟩
    rw [List.append_eq, List.length_append, List.length_singleton]
    omega

theorem length_le (h : Aged most fs) (hpos : ∀ f ∈ fs, 0 < f.hp) : fs.length ≤ most := by
  cases fs with
  | nil => exact Nat.zero_le _
  | cons f fs =>
    have hfirst := h.1
    have := hpos f List.mem_cons_self
    rw [List.length_cons]
    omega

end Aged

/-- If at most one joins in a round, with at most so many hit points, there are never more. -/
theorem length_muster_le {most : Nat} (hpos : ∀ e ∈ news.flatten, 0 < e.hp)
    (hmost : ∀ e ∈ news.flatten, e.hp ≤ most + 1) (hone : ∀ new ∈ news, new.length ≤ 1) :
    (muster news).length ≤ most + 1 := by
  have haged : Aged (most + 1) (muster news) := by
    clear hpos
    induction news using List.reverseRecOn with
    | nil => trivial
    | append_singleton news new ih =>
      simp only [List.flatten_append, List.mem_append] at hmost hone
      have hwane := (ih (fun e he => hmost e (.inl he)) fun new h => hone new (.inl h)).wane
      rw [muster_append]
      have hlen := hone new (.inr List.mem_cons_self)
      cases new with
      | nil => simpa using hwane.mono
      | cons e rest =>
        obtain rfl : rest = [] := List.length_eq_zero_iff.1 (by simpa using hlen)
        exact hwane.join (hmost e (.inr (by simp)))
  exact haged.length_le fun f hf => ((mem_muster hpos).1 hf).1

end AgentScheduler.Arena
