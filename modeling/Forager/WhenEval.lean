import Forager.When

/-!
# Evaluating the guards of content packs

`whenExpr.eval` of `pkg/proxy/discovery/when.go` reads the comparisons of a guard
from left to right. It stops with an error at the first one whose fact was not
probed, unless a comparison before it has decided the guard. A completion of the
facts gives each comparison on a missing fact either value.
-/

namespace Forager

open Go

/-! ## The loops -/

structure MissingFact where
  fact : String
deriving DecidableEq, Repr

/-- The outcome of a comparison with the value of its fact. -/
def Comparison.holds (c : Comparison) (got : String) : Bool :=
  match c.op with
  | .eq => got = c.value
  | .ne => got ≠ c.value

/-- The inner loop of `eval`: whether all comparisons hold. -/
def evalAnds (facts : StrMap String) : List Comparison → Except MissingFact Bool
  | [] => .ok true
  | c :: rest =>
    match facts.get c.fact with
    | none => .error ⟨c.fact⟩
    | some got => if c.holds got then evalAnds facts rest else .ok false

def WhenExpr.eval (facts : StrMap String) : WhenExpr → Except MissingFact Bool
  | [] => .ok false
  | ands :: rest =>
    match evalAnds facts ands with
    | .error err => .error err
    | .ok true => .ok true
    | .ok false => WhenExpr.eval facts rest

/-! ## Completions -/

/-- What the facts say of a comparison: nothing if its fact is missing. -/
def Comparison.known (facts : StrMap String) (c : Comparison) : Option Bool :=
  (facts.get c.fact).map c.holds

/-- A value of a comparison that agrees with the facts: either value if its fact is
missing. -/
def Agrees (facts : StrMap String) (c : Comparison) (v : Bool) : Prop :=
  ∀ b, c.known facts = some b → v = b

/-- The values `vs` of the comparisons of a guard, one for each occurrence, agree
with the facts. -/
def Completes (facts : StrMap String) (e : WhenExpr) (vs : List (List Bool)) : Prop :=
  List.Forall₂ (List.Forall₂ (Agrees facts)) e vs

def guardValue (vs : List (List Bool)) : Bool := vs.any (·.all id)

/-- The guard has the value `b` in every completion of the facts. -/
def Settled (facts : StrMap String) (e : WhenExpr) (b : Bool) : Prop :=
  ∀ vs, Completes facts e vs → guardValue vs = b

/-- The conjunction ends at its first comparison that does not hold, with all facts
up to there known. -/
def Refuted (facts : StrMap String) (ands : List Comparison) : Prop :=
  ∃ done c rest, ands = done ++ c :: rest ∧
    (∀ d ∈ done, d.known facts = some true) ∧ c.known facts = some false

/-- The comparison `c` on a missing fact is reached from the left: the terms before
its own are refuted, and the comparisons before it in its term hold. -/
def Reached (facts : StrMap String) (e : WhenExpr) (c : Comparison) : Prop :=
  ∃ terms done rest others, e = terms ++ (done ++ c :: rest) :: others ∧
    (∀ ands ∈ terms, Refuted facts ands) ∧
    (∀ d ∈ done, d.known facts = some true) ∧ c.known facts = none

/-- The two guards differ in the order of the operands of `&&` and `||` only. -/
def SameOperands (e e' : WhenExpr) : Prop :=
  ∃ e₁, List.Forall₂ List.Perm e e₁ ∧ e₁.Perm e'

namespace WhenEvalLemmas

variable {facts : StrMap String} {e e' : WhenExpr} {ands : List Comparison} {c : Comparison}

/-! ## One conjunction -/

theorem evalAnds_cons (c : Comparison) (rest : List Comparison) :
    evalAnds facts (c :: rest) = match c.known facts with
      | none => .error ⟨c.fact⟩
      | some true => evalAnds facts rest
      | some false => .ok false := by
  rw [evalAnds, Comparison.known]
  cases facts.get c.fact with
  | none => rfl
  | some got => cases h : c.holds got <;> simp [h]

theorem evalAnds_append {done : List Comparison} (h : ∀ d ∈ done, d.known facts = some true)
    (rest : List Comparison) : evalAnds facts (done ++ rest) = evalAnds facts rest := by
  induction done with
  | nil => rfl
  | cons d done ih =>
    rw [List.cons_append, evalAnds_cons, h d List.mem_cons_self]
    exact ih fun x hx => h x (List.mem_cons_of_mem _ hx)

theorem evalAnds_cases (facts : StrMap String) (ands : List Comparison) :
    (evalAnds facts ands = .ok true ∧ ∀ d ∈ ands, d.known facts = some true) ∨
    (evalAnds facts ands = .ok false ∧ Refuted facts ands) ∨
    ∃ done c rest, ands = done ++ c :: rest ∧ (∀ d ∈ done, d.known facts = some true) ∧
      c.known facts = none ∧ evalAnds facts ands = .error ⟨c.fact⟩ := by
  induction ands with
  | nil => exact .inl ⟨rfl, by simp⟩
  | cons d ands ih =>
    rw [evalAnds_cons]
    match hd : d.known facts with
    | none => exact .inr (.inr ⟨[], d, ands, rfl, by simp, hd, rfl⟩)
    | some false => exact .inr (.inl ⟨rfl, [], d, ands, rfl, by simp, hd⟩)
    | some true =>
      rcases ih with ⟨h, hall⟩ | ⟨h, done, c, rest, rfl, hdone, hc⟩ |
        ⟨done, c, rest, rfl, hdone, hc, h⟩
      · exact .inl ⟨h, List.forall_mem_cons.mpr ⟨hd, hall⟩⟩
      · exact .inr (.inl ⟨h, d :: done, c, rest, rfl, List.forall_mem_cons.mpr ⟨hd, hdone⟩, hc⟩)
      · exact .inr (.inr ⟨d :: done, c, rest, rfl, List.forall_mem_cons.mpr ⟨hd, hdone⟩, hc, h⟩)

theorem evalAnds_refuted (h : Refuted facts ands) : evalAnds facts ands = .ok false := by
  obtain ⟨done, c, rest, rfl, hdone, hc⟩ := h
  rw [evalAnds_append hdone, evalAnds_cons, hc]

/-! ## The whole guard -/

theorem eval_append {terms : WhenExpr} (h : ∀ ands ∈ terms, Refuted facts ands) (rest : WhenExpr) :
    WhenExpr.eval facts (terms ++ rest) = WhenExpr.eval facts rest := by
  induction terms with
  | nil => rfl
  | cons ands terms ih =>
    rw [List.cons_append, WhenExpr.eval, evalAnds_refuted (h ands List.mem_cons_self)]
    exact ih fun x hx => h x (List.mem_cons_of_mem _ hx)

theorem eval_cases (facts : StrMap String) (e : WhenExpr) :
    (WhenExpr.eval facts e = .ok true ∧ ∃ ands ∈ e, ∀ d ∈ ands, d.known facts = some true) ∨
    (WhenExpr.eval facts e = .ok false ∧ ∀ ands ∈ e, Refuted facts ands) ∨
    ∃ c, Reached facts e c ∧ WhenExpr.eval facts e = .error ⟨c.fact⟩ := by
  induction e with
  | nil => exact .inr (.inl ⟨rfl, by simp⟩)
  | cons ands e ih =>
    rcases evalAnds_cases facts ands with ⟨h, hall⟩ | ⟨h, hrefuted⟩ |
      ⟨done, c, rest, rfl, hdone, hc, h⟩
    · exact .inl ⟨by rw [WhenExpr.eval, h], ands, List.mem_cons_self, hall⟩
    · rw [WhenExpr.eval, h]
      rcases ih with ⟨h', ands', hmem, hall⟩ | ⟨h', hall⟩ |
        ⟨c, ⟨terms, done, rest, others, rfl, hterms, hdone, hc⟩, h'⟩
      · exact .inl ⟨h', ands', List.mem_cons_of_mem _ hmem, hall⟩
      · exact .inr (.inl ⟨h', List.forall_mem_cons.mpr ⟨hrefuted, hall⟩⟩)
      · exact .inr (.inr ⟨c, ⟨ands :: terms, done, rest, others, rfl,
          List.forall_mem_cons.mpr ⟨hrefuted, hterms⟩, hdone, hc⟩, h'⟩)
    · exact .inr (.inr ⟨c, ⟨[], done, rest, e, rfl, by simp, hdone, hc⟩, by rw [WhenExpr.eval, h]⟩)

theorem eval_reached (h : Reached facts e c) : WhenExpr.eval facts e = .error ⟨c.fact⟩ := by
  obtain ⟨terms, done, rest, others, rfl, hterms, hdone, hc⟩ := h
  rw [eval_append hterms, WhenExpr.eval, evalAnds_append hdone, evalAnds_cons, hc]

theorem eval_error_iff {err : MissingFact} :
    WhenExpr.eval facts e = .error err ↔ ∃ c, Reached facts e c ∧ err = ⟨c.fact⟩ := by
  constructor
  · intro h
    rcases eval_cases facts e with ⟨h', -⟩ | ⟨h', -⟩ | ⟨c, hc, h'⟩
    · cases h'.symm.trans h
    · cases h'.symm.trans h
    · exact ⟨c, hc, (Except.error.inj (h'.symm.trans h)).symm⟩
  · rintro ⟨c, hc, rfl⟩
    exact eval_reached hc

/-! ## Verdicts and completions -/

variable {vs : List (List Bool)} {v : List Bool}

/-- The completion of the facts with one value for every missing comparison. -/
def completion (facts : StrMap String) (d : Bool) (e : WhenExpr) : List (List Bool) :=
  e.map (·.map fun c => (c.known facts).getD d)

theorem completes_completion (d : Bool) (e : WhenExpr) :
    Completes facts e (completion facts d e) := by
  unfold Completes completion
  rw [List.forall₂_map_right_iff]
  refine List.forall₂_same.mpr fun ands _ => ?_
  rw [List.forall₂_map_right_iff]
  refine List.forall₂_same.mpr fun c _ b hb => ?_
  rw [hb, Option.getD_some]

theorem all_of_known (h : List.Forall₂ (Agrees facts) ands v)
    (hall : ∀ d ∈ ands, d.known facts = some true) : v.all id = true := by
  rw [List.all_eq_true]
  intro b hb
  obtain ⟨c, hc, hcb⟩ := exists_right h.flip hb
  exact hcb true (hall c hc)

theorem not_all_of_refuted (h : List.Forall₂ (Agrees facts) ands v) (hands : Refuted facts ands) :
    v.all id = false := by
  obtain ⟨done, c, rest, rfl, -, hc⟩ := hands
  obtain ⟨b, hb, hcb⟩ := exists_right h (List.mem_append_right done List.mem_cons_self)
  rw [List.all_eq_false]
  exact ⟨b, hb, by simp [hcb false hc]⟩

theorem sound {b : Bool} (h : WhenExpr.eval facts e = .ok b) : Settled facts e b := by
  intro vs hvs
  rcases eval_cases facts e with ⟨h', ands, hmem, hall⟩ | ⟨h', hall⟩ | ⟨c, -, h'⟩
  · obtain ⟨v, hv, hands⟩ := exists_right hvs hmem
    obtain rfl := Except.ok.inj (h'.symm.trans h)
    exact List.any_eq_true.mpr ⟨v, hv, all_of_known hands hall⟩
  · obtain rfl := Except.ok.inj (h'.symm.trans h)
    refine List.any_eq_false.mpr fun v hv => ?_
    obtain ⟨ands, hmem, hands⟩ := exists_right hvs.flip hv
    rw [not_all_of_refuted hands (hall ands hmem)]
    exact Bool.false_ne_true
  · cases h'.symm.trans h

theorem settled_unique {b b' : Bool} (h : Settled facts e b) (h' : Settled facts e b') : b = b' :=
  (h _ (completes_completion true e)).symm.trans (h' _ (completes_completion true e))

theorem eval_ok_iff {b : Bool} :
    WhenExpr.eval facts e = .ok b ↔ Settled facts e b ∧ ∀ c, ¬ Reached facts e c := by
  constructor
  · intro h
    refine ⟨sound h, fun c hc => ?_⟩
    cases (eval_reached hc).symm.trans h
  · rintro ⟨hb, hreached⟩
    cases h : WhenExpr.eval facts e with
    | error err =>
      obtain ⟨c, hc, -⟩ := eval_error_iff.mp h
      exact absurd hc (hreached c)
    | ok b' => rw [settled_unique (sound h) hb]

/-! ## The order of the operands -/

theorem guardValue_completion (d : Bool) (e : WhenExpr) :
    guardValue (completion facts d e) = e.any (·.all fun c => (c.known facts).getD d) := by
  simp [guardValue, completion, List.any_map, List.all_map, Function.comp_def]

theorem guardValue_sameOperands (h : SameOperands e e') (d : Bool) :
    guardValue (completion facts d e) = guardValue (completion facts d e') := by
  obtain ⟨e₁, hands, hterms⟩ := h
  rw [guardValue_completion, guardValue_completion, ← hterms.any_eq]
  clear hterms
  induction hands with
  | nil => rfl
  | cons hperm _ ih => rw [List.any_cons, List.any_cons, hperm.all_eq, ih]

theorem verdict_sameOperands (h : SameOperands e e') {b b' : Bool}
    (hb : WhenExpr.eval facts e = .ok b) (hb' : WhenExpr.eval facts e' = .ok b') : b = b' := by
  rw [← sound hb _ (completes_completion true e), ← sound hb' _ (completes_completion true e')]
  exact guardValue_sameOperands h true

end WhenEvalLemmas

/-! ## Results -/

/-- `eval` gives the verdict `b` iff the guard has the value `b` in every completion
of the facts and no comparison on a missing fact is reached from the left.
Otherwise its error names the first missing fact that is reached. Exchanging operands
may turn a verdict into an error, but never into the other verdict. -/
theorem guard_read_from_left (facts : StrMap String) (e : WhenExpr) :
    (∀ b, WhenExpr.eval facts e = .ok b ↔
      Settled facts e b ∧ ∀ c, ¬ Reached facts e c) ∧
    (∀ fact, WhenExpr.eval facts e = .error ⟨fact⟩ ↔ ∃ c, Reached facts e c ∧ c.fact = fact) ∧
    (∀ e' b b', SameOperands e e' → WhenExpr.eval facts e = .ok b →
      WhenExpr.eval facts e' = .ok b' → b = b') := by
  refine ⟨fun b => WhenEvalLemmas.eval_ok_iff, fun fact => ?_,
    fun e' b b' h hb hb' => WhenEvalLemmas.verdict_sameOperands h hb hb'⟩
  rw [WhenEvalLemmas.eval_error_iff]
  simp only [MissingFact.mk.injEq, eq_comm]

/-- On a Debian host whose version was not probed, a guard that is true whatever the
version is reported as an error. With its operands exchanged it is true. -/
theorem eval_stops_before_decision :
    ∃ e e', parseWhen "os_major == \"12\" || os_family == \"debian\"" = .ok e ∧
      parseWhen "os_family == \"debian\" || os_major == \"12\"" = .ok e' ∧
      Settled [("os_family", "debian")] e true ∧ SameOperands e e' ∧
      WhenExpr.eval [("os_family", "debian")] e = .error ⟨"os_major"⟩ ∧
      WhenExpr.eval [("os_family", "debian")] e' = .ok true := by
  refine ⟨[[⟨"os_major", .eq, "12"⟩], [⟨"os_family", .eq, "debian"⟩]],
    [[⟨"os_family", .eq, "debian"⟩], [⟨"os_major", .eq, "12"⟩]], by decide, by decide, ?_,
    ⟨_, List.forall₂_same.mpr fun _ _ => .refl _, .swap _ _ []⟩, rfl, rfl⟩
  rintro _ (_ | ⟨_, _ | ⟨_ | ⟨hv, _ | _⟩, _ | _⟩⟩)
  simp [guardValue, hv true rfl]

end Forager
