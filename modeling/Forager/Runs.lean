import Mathlib.Data.List.Basic
import Mathlib.Data.List.Infix

/-!
# Runs of a transition system

Two ways of taking step after step, and the induction rule of each.

* `Run step s as`: a deterministic system that folds a list of inputs. An
  invariant that may read the inputs consumed so far is carried to every
  prefix by `run_invariant`. The rule lets a step assume a side condition
  `Ok pre a` on the state and input before it, so "every run whose steps all
  meet the condition" is one hypothesis of the rule.
* `Reach step s0`: the states a labelled relation reaches, with `reach_invariant`, and
  `exists_reach_of_progress` for what some run comes to.

`of_update` splits a statement about the processes of a system after one of them moved.
-/

namespace Runs

section Deterministic

variable {σ α : Type} (step : σ → α → σ) (s0 : σ)

/-- The state after the inputs `as`. -/
def Run (as : List α) : σ := as.foldl step s0

@[simp] theorem run_nil : Run step s0 [] = s0 := rfl

@[simp] theorem run_snoc (as : List α) (a : α) :
    Run step s0 (as ++ [a]) = step (Run step s0 as) a := by
  simp [Run]

theorem run_append (as bs : List α) :
    Run step s0 (as ++ bs) = Run step (Run step s0 as) bs :=
  List.foldl_append

theorem snoc_prefix_snoc {pre as : List α} {a b : α} :
    pre ++ [a] <+: as ++ [b] ↔ (pre = as ∧ a = b) ∨ pre ++ [a] <+: as := by
  rw [List.prefix_concat_iff]
  refine or_congr_left ⟨fun h => ?_, fun ⟨hp, ha⟩ => by rw [hp, ha]⟩
  obtain ⟨hp, ha⟩ := List.append_inj' h rfl
  exact ⟨hp, List.singleton_inj.mp ha⟩

theorem snoc_prefix_take {pre as : List α} {a : α} (h : pre ++ [a] <+: as) :
    ∃ n < as.length, as[n]? = some a ∧ pre = as.take n := by
  obtain ⟨rest, rfl⟩ := h
  exact ⟨pre.length, by simp, by simp, by simp⟩

theorem forall_steps {Ok : List α → α → Prop} {as : List α}
    (h : ∀ n (hn : n < as.length), Ok (as.take n) as[n]) (pre : List α) (a : α)
    (hp : pre ++ [a] <+: as) : Ok pre a := by
  obtain ⟨n, hn, ha, rfl⟩ := snoc_prefix_take hp
  rw [List.getElem?_eq_getElem hn] at ha
  exact Option.some.inj ha ▸ h n hn

variable {step s0}

theorem run_invariant (Inv : List α → Prop) (Ok : List α → α → Prop) (h0 : Inv [])
    (hstep : ∀ pre a, Ok pre a → Inv pre → Inv (pre ++ [a])) {as : List α}
    (hok : ∀ pre a, pre ++ [a] <+: as → Ok pre a) : Inv as := by
  induction as using List.reverseRecOn with
  | nil => exact h0
  | append_singleton pre a ih =>
    refine hstep pre a (hok pre a (List.prefix_refl _)) (ih fun p b hp => ?_)
    exact hok p b (hp.trans (List.prefix_append pre [a]))

end Deterministic

section Relational

variable {σ ι : Type} (step : σ → ι → σ → Prop) (s0 : σ)

/-- The states reachable from `s0`. -/
inductive Reach : σ → Prop
  | init : Reach s0
  | step {s s' : σ} {i : ι} : Reach s → step s i s' → Reach s'

variable {step s0}

theorem reach_invariant (Inv : σ → Prop) (h0 : Inv s0)
    (hstep : ∀ s i s', Inv s → step s i s' → Inv s') {s : σ} (h : Reach step s0 s) : Inv s := by
  induction h with
  | init => exact h0
  | step _ hs ih => exact hstep _ _ _ ih hs

theorem Reach.trans {s s' : σ} (h : Reach step s0 s) (h' : Reach step s s') :
    Reach step s0 s' := by
  induction h' with
  | init => exact h
  | step _ hs ih => exact .step ih hs

theorem reach_of_foldlM {f : σ → ι → Option σ} {is : List ι} {s s' : σ}
    (h : is.foldlM f s = some s') : Reach (fun s i s' => f s i = some s') s s' := by
  induction is generalizing s with
  | nil =>
    obtain rfl := Option.some.inj h
    exact .init
  | cons i is ih =>
    rw [List.foldlM_cons] at h
    obtain ⟨s₁, hstep, hrest⟩ := Option.bind_eq_some_iff.mp h
    exact (Reach.step .init hstep).trans (ih hrest)

theorem exists_reach_of_progress (Inv Aim : σ → Prop) (μ : σ → Nat)
    (hprogress : ∀ s, Inv s → ¬ Aim s → ∃ i s', step s i s' ∧ Inv s' ∧ μ s' < μ s)
    {s : σ} (h : Inv s) : ∃ s', Reach step s s' ∧ Inv s' ∧ Aim s' := by
  induction hn : μ s using Nat.strong_induction_on generalizing s with
  | _ n ih =>
    by_cases haim : Aim s
    · exact ⟨s, .init, h, haim⟩
    · obtain ⟨i, s₁, hs, h₁, hlt⟩ := hprogress s h haim
      obtain ⟨s', hreach, hs'⟩ := ih (μ s₁) (hn ▸ hlt) h₁ rfl
      exact ⟨s', (Reach.step .init hs).trans hreach, hs'⟩

end Relational

section Processes

variable {ι φ : Type} [DecidableEq ι] {phase : ι → φ} {i j : ι} {p : φ}

theorem of_update (P : φ → Prop) (h : P (Function.update phase i p j)) :
    (j = i ∧ P p) ∨ (j ≠ i ∧ P (phase j)) := by
  rcases eq_or_ne j i with rfl | hne
  · exact .inl ⟨rfl, by rwa [Function.update_self] at h⟩
  · exact .inr ⟨hne, by rwa [Function.update_of_ne hne] at h⟩

theorem of_update_eq {q : φ} (h : Function.update phase i p j = q) :
    (j = i ∧ p = q) ∨ (j ≠ i ∧ phase j = q) :=
  of_update (· = q) h

end Processes

end Runs
