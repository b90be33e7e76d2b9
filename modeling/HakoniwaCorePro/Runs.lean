import Mathlib.Data.List.Induction
import Mathlib.Data.List.Perm.Basic
import Mathlib.Tactic.Common

/-!
# Runs of a deterministic step function

A machine is a step function `S → A → S`; everything the environment decides is part of
the action. `Along` says that a condition on (state before, action) holds at every step
of a run, which is how a run whose steps all meet a condition is spoken of. `Since` is
the past-time operator on the list of what has been observed so far.
-/

namespace Runs

variable {S A O : Type*}

/-- The state reached from `s` by the actions `as`. -/
def run (step : S → A → S) (s : S) (as : List A) : S := as.foldl step s

@[simp] theorem run_nil (step : S → A → S) (s : S) : run step s [] = s := rfl

@[simp] theorem run_cons (step : S → A → S) (s : S) (a : A) (as : List A) :
    run step s (a :: as) = run step (step s a) as := rfl

theorem run_append (step : S → A → S) (s : S) (as bs : List A) :
    run step s (as ++ bs) = run step (run step s as) bs := by
  simp [run]

@[simp] theorem run_concat (step : S → A → S) (s : S) (as : List A) (a : A) :
    run step s (as ++ [a]) = step (run step s as) a := by
  simp [run]

/-- Every step of the run meets `P` in the state before it. -/
def Along (step : S → A → S) (P : S → A → Prop) : S → List A → Prop
  | _, [] => True
  | s, a :: as => P s a ∧ Along step P (step s a) as

@[simp] theorem along_nil (step : S → A → S) (P : S → A → Prop) (s : S) : Along step P s [] := trivial

@[simp] theorem along_cons (step : S → A → S) (P : S → A → Prop) (s : S) (a : A) (as : List A) :
    Along step P s (a :: as) ↔ P s a ∧ Along step P (step s a) as := Iff.rfl

theorem along_append (step : S → A → S) (P : S → A → Prop) (s : S) (as bs : List A) :
    Along step P s (as ++ bs) ↔ Along step P s as ∧ Along step P (run step s as) bs := by
  induction as generalizing s with
  | nil => simp
  | cons a as ih => simp [ih, and_assoc]

instance alongDecidable (step : S → A → S) (P : S → A → Prop) [∀ s a, Decidable (P s a)] :
    ∀ s as, Decidable (Along step P s as)
  | _, [] => isTrue trivial
  | s, a :: as =>
    have := alongDecidable step P (step s a) as
    inferInstanceAs (Decidable (_ ∧ _))

theorem along_and {step : S → A → S} {P Q : S → A → Prop} {s : S} {as : List A}
    (hp : Along step P s as) (hq : Along step Q s as) : Along step (fun s a => P s a ∧ Q s a) s as := by
  induction as generalizing s with
  | nil => trivial
  | cons a as ih => exact ⟨⟨hp.1, hq.1⟩, ih hp.2 hq.2⟩

/-- Where a condition fails along a run, there is a step at which it fails. -/
theorem exists_of_not_along {step : S → A → S} {P : S → A → Prop} {s : S} {as : List A}
    (h : ¬ Along step P s as) : ∃ as₁ a as₂, as = as₁ ++ a :: as₂ ∧ ¬ P (run step s as₁) a := by
  induction as generalizing s with
  | nil => exact absurd trivial h
  | cons a as ih =>
    by_cases hp : P s a
    · obtain ⟨as₁, x, as₂, rfl, hx⟩ := ih fun hrest => h ⟨hp, hrest⟩
      exact ⟨a :: as₁, x, as₂, rfl, hx⟩
    · exact ⟨[], a, as, rfl, hp⟩

/-- An invariant kept by every step that meets `P` holds after a run of such steps. -/
theorem run_invariant {step : S → A → S} {P : S → A → Prop} {I : S → Prop}
    (hstep : ∀ s a, I s → P s a → I (step s a)) {s : S} {as : List A}
    (hs : I s) (hp : Along step P s as) : I (run step s as) := by
  induction as generalizing s with
  | nil => exact hs
  | cons a as ih => exact ih (hstep s a hs hp.1) hp.2

theorem along_of_invariant {step : S → A → S} {P Q : S → A → Prop} {I : S → Prop}
    (hstep : ∀ s a, I s → P s a → I (step s a)) (hgive : ∀ s a, I s → P s a → Q s a) {s : S}
    {as : List A} (hs : I s) (hp : Along step P s as) : Along step Q s as := by
  induction as generalizing s with
  | nil => trivial
  | cons a as ih => exact ⟨hgive s a hs hp.1, ih (hstep s a hs hp.1) hp.2⟩

/-- Along a run that stays within `D`: where a guarantee `Q` keeps the invariant and, under it,
is the same as `P`, the run keeps `Q` throughout exactly if its steps all meet `P`. -/
theorem along_iff_within {step : S → A → S} {D P Q : S → A → Prop} {I : S → Prop}
    (hstep : ∀ s a, I s → D s a → Q s a → I (step s a))
    (hiff : ∀ s a, I s → D s a → (Q s a ↔ P s a)) {s : S} {as : List A} (hs : I s)
    (hd : Along step D s as) : Along step Q s as ↔ Along step P s as := by
  induction as generalizing s with
  | nil => simp
  | cons a as ih =>
    constructor
    · rintro ⟨hq, hrest⟩
      exact ⟨(hiff s a hs hd.1).mp hq, (ih (hstep s a hs hd.1 hq) hd.2).mp hrest⟩
    · rintro ⟨hp, hrest⟩
      have hq := (hiff s a hs hd.1).mpr hp
      exact ⟨hq, (ih (hstep s a hs hd.1 hq) hd.2).mpr hrest⟩

theorem along_forall_iff {step : S → A → S} {P : A → Prop} {s : S} {as : List A} :
    Along step (fun _ a => P a) s as ↔ ∀ a ∈ as, P a := by
  induction as generalizing s with
  | nil => simp
  | cons a as ih => simp [ih]

/-- Where a guarantee `Q` keeps the invariant and, under it, is the same as `P`, the runs
that keep `Q` throughout are exactly the runs whose steps all meet `P`. -/
theorem along_iff_of_invariant {step : S → A → S} {P Q : S → A → Prop} {I : S → Prop}
    (hstep : ∀ s a, I s → Q s a → I (step s a)) (hiff : ∀ s a, I s → (Q s a ↔ P s a))
    {s : S} {as : List A} (hs : I s) : Along step Q s as ↔ Along step P s as :=
  along_iff_within (fun s a hi _ => hstep s a hi) (fun s a hi _ => hiff s a hi) hs
    (along_forall_iff.mpr fun _ _ => trivial)

/-- Where the steps that are `mine` lower a rank `R` that no other step changes, the goal `G` is reached
before there have been as many of them as the rank says. -/
theorem reached_of_rank {step : S → A → S} {P : S → A → Prop} {I G : S → Prop} {mine : A → Bool}
    {R : S → ℕ → Prop} (hstep : ∀ s a, I s → P s a → I (step s a))
    (hpos : ∀ s n, R s n → 0 < n)
    (hmine : ∀ s a n, I s → P s a → R s n → mine a = true →
      G (step s a) ∨ ∃ k < n, R (step s a) k)
    (hother : ∀ s a n, I s → P s a → R s n → mine a = false →
      G (step s a) ∨ R (step s a) n)
    {s : S} {n : ℕ} {as : List A} (hs : I s) (hr : R s n) (hp : Along step P s as)
    (hn : n ≤ as.countP mine) : ∃ as₁ as₂, as = as₁ ++ as₂ ∧ G (run step s as₁) := by
  induction as generalizing s n with
  | nil =>
    have hzero := hpos s n hr
    simp at hn
    omega
  | cons a as ih =>
    have hnext : G (step s a) ∨ ∃ k, R (step s a) k ∧ k ≤ as.countP mine := by
      cases ha : mine a with
      | true =>
        rcases hmine s a n hs hp.1 hr ha with hgoal | ⟨k, hk, hrank⟩
        · exact Or.inl hgoal
        · rw [List.countP_cons_of_pos ha] at hn
          exact Or.inr ⟨k, hrank, by omega⟩
      | false =>
        rw [List.countP_cons_of_neg (by simp [ha])] at hn
        exact (hother s a n hs hp.1 hr ha).imp_right fun hrank => ⟨n, hrank, hn⟩
    rcases hnext with hgoal | ⟨k, hrank, hk⟩
    · exact ⟨[a], as, rfl, hgoal⟩
    · obtain ⟨as₁, as₂, rfl, hgoal⟩ := ih (hstep s a hs hp.1) hrank hp.2 hk
      exact ⟨a :: as₁, as₂, rfl, hgoal⟩

section Fairness

variable {step : S → A → S} {I G : S → Prop}

/-- The state after `n` actions of a schedule. -/
def after (step : S → A → S) (s : S) (σ : ℕ → A) (n : ℕ) : S := run step s ((List.range n).map σ)

@[simp] theorem after_zero (s : S) (σ : ℕ → A) : after step s σ 0 = s := rfl

@[simp] theorem after_succ (s : S) (σ : ℕ → A) (n : ℕ) :
    after step s σ (n + 1) = step (after step s σ n) (σ n) := by
  simp [after, List.range_succ]

theorem after_invariant (hinv : ∀ s a, I s → I (step s a)) {s : S} (hs : I s) (σ : ℕ → A)
    (n : ℕ) : I (after step s σ n) := by
  induction n with
  | zero => exact hs
  | succ n ih =>
    rw [after_succ]
    exact hinv _ _ ih

theorem after_same_or_lower {rank : S → ℕ} (hinv : ∀ s a, I s → I (step s a))
    (hdown : ∀ s a, I s → step s a = s ∨ rank (step s a) < rank s) {s : S} (hs : I s)
    (σ : ℕ → A) {n m : ℕ} (hnm : n ≤ m) :
    after step s σ m = after step s σ n ∨ rank (after step s σ m) < rank (after step s σ n) := by
  obtain ⟨k, rfl⟩ := Nat.exists_eq_add_of_le hnm
  clear hnm
  induction k with
  | zero => exact Or.inl rfl
  | succ k ih =>
    rw [← Nat.add_assoc, after_succ]
    rcases hdown _ (σ (n + k)) (after_invariant hinv hs σ _) with hsame | hlower
    · rw [hsame]
      exact ih
    · rcases ih with ih | ih
      · rw [ih] at hlower ⊢
        exact Or.inr hlower
      · exact Or.inr (Nat.lt_trans hlower ih)

/-- Where some action changes the state until the goal is reached, and every change lowers a rank, a
schedule that leaves no action out reaches the goal. -/
theorem fair_reaches (rank : S → ℕ) (hinv : ∀ s a, I s → I (step s a))
    (hdown : ∀ s a, I s → step s a = s ∨ rank (step s a) < rank s)
    (hmove : ∀ s, I s → G s ∨ ∃ a, step s a ≠ s) {s : S} (hs : I s) {σ : ℕ → A}
    (hfair : ∀ a n, ∃ m, n ≤ m ∧ σ m = a) : ∃ n, G (after step s σ n) := by
  have hreach : ∀ r n, rank (after step s σ n) ≤ r → ∃ m, G (after step s σ m) := by
    intro r
    induction r with
    | zero =>
      intro n hr
      rcases hmove _ (after_invariant hinv hs σ n) with hg | ⟨a, ha⟩
      · exact ⟨n, hg⟩
      · rcases hdown _ a (after_invariant hinv hs σ n) with hsame | hlower
        · exact absurd hsame ha
        · omega
    | succ r ih =>
      intro n hr
      rcases hmove _ (after_invariant hinv hs σ n) with hg | ⟨a, ha⟩
      · exact ⟨n, hg⟩
      · obtain ⟨m, hnm, hm⟩ := hfair a n
        rcases after_same_or_lower hinv hdown hs σ hnm with hsame | hlower
        · -- Nothing has changed until the action that changes something has its turn.
          have hstep := hdown _ a (after_invariant hinv hs σ n)
          have hlower := hstep.resolve_left ha
          refine ih (m + 1) ?_
          rw [after_succ, hm, hsame]
          omega
        · exact ih m (by omega)
  exact hreach _ 0 (Nat.le_refl _)

end Fairness

section Simulation

variable {T B : Type*} {step : S → A → S} {step' : T → B → T} {f : A → B} {R : S → T → Prop}

/-- A step that is matched step by step is matched over whole runs. -/
theorem run_simulation (hstep : ∀ s t a, R s t → R (step s a) (step' t (f a))) {s : S} {t : T}
    (h : R s t) (as : List A) : R (run step s as) (run step' t (as.map f)) := by
  induction as generalizing s t with
  | nil => exact h
  | cons a as ih => exact ih (hstep s t a h)

theorem along_simulation {P : S → A → Prop} {Q : T → B → Prop}
    (hstep : ∀ s t a, R s t → R (step s a) (step' t (f a)))
    (hcond : ∀ s t a, R s t → P s a → Q t (f a)) {s : S} {t : T} (h : R s t) {as : List A}
    (hp : Along step P s as) : Along step' Q t (as.map f) := by
  induction as generalizing s t with
  | nil => trivial
  | cons a as ih => exact ⟨hcond s t a h hp.1, ih (hstep s t a h) hp.2⟩

end Simulation

/-- The same step, writing down after it what was observed. -/
def logged (step : S → A → S) (obs : S → A → List O) (c : S × List O) (a : A) : S × List O :=
  (step c.1 a, c.2 ++ obs c.1 a)

theorem run_logged_fst (step : S → A → S) (obs : S → A → List O) (c : S × List O) (as : List A) :
    (run (logged step obs) c as).1 = run step c.1 as := by
  induction as generalizing c with
  | nil => rfl
  | cons a as ih => exact ih (logged step obs c a)

/-- What a run from `s` observes. -/
def history (step : S → A → S) (obs : S → A → List O) (s : S) (as : List A) : List O :=
  (run (logged step obs) (s, []) as).2

theorem run_logged_snd (step : S → A → S) (obs : S → A → List O) (c : S × List O) (as : List A) :
    (run (logged step obs) c as).2 = c.2 ++ history step obs c.1 as := by
  induction as generalizing c with
  | nil => exact (List.append_nil c.2).symm
  | cons a as ih =>
    have hfirst : history step obs c.1 (a :: as) =
        ([] ++ obs c.1 a) ++ history step obs (step c.1 a) as := ih (logged step obs (c.1, []) a)
    rw [run_cons, ih, hfirst]
    simp [logged]

@[simp] theorem history_nil (step : S → A → S) (obs : S → A → List O) (s : S) :
    history step obs s [] = [] := rfl

@[simp] theorem history_cons (step : S → A → S) (obs : S → A → List O) (s : S) (a : A)
    (as : List A) : history step obs s (a :: as) = obs s a ++ history step obs (step s a) as := by
  rw [history, run_cons, run_logged_snd]
  rfl

@[simp] theorem history_concat (step : S → A → S) (obs : S → A → List O) (s : S)
    (as : List A) (a : A) :
    history step obs s (as ++ [a]) = history step obs s as ++ obs (run step s as) a := by
  simp [history, logged, run_logged_fst]

/-- Where a step shows at most one thing, what is seen before something is the history of the run
up to the step that shows it. -/
theorem history_split {step : S → A → S} {obs : S → A → List O}
    (hone : ∀ s a, (obs s a).length ≤ 1) {s : S} {as : List A} {h₁ h₂ : List O} {o : O}
    (h : history step obs s as = h₁ ++ o :: h₂) : ∃ as₁ a as₂, as = as₁ ++ a :: as₂ ∧
      history step obs s as₁ = h₁ ∧ o ∈ obs (run step s as₁) a := by
  induction as using List.reverseRecOn generalizing h₂ with
  | nil => simp at h
  | append_singleton as a ih =>
    rw [history_concat] at h
    have hlen := hone (run step s as) a
    match hobs : obs (run step s as) a, hlen with
    | [], _ =>
      rw [hobs, List.append_nil] at h
      obtain ⟨as₁, b, as₂, rfl, hh, hb⟩ := ih h
      exact ⟨as₁, b, as₂ ++ [a], by simp, hh, hb⟩
    | [x], _ =>
      rw [hobs] at h
      rcases List.eq_nil_or_concat h₂ with rfl | ⟨l, y, rfl⟩
      · obtain ⟨hh, hx⟩ := List.append_inj' h rfl
        exact ⟨as, a, [], rfl, hh, by simp [hobs, List.cons.inj hx]⟩
      · have hsplit : history step obs s as ++ [x] = (h₁ ++ o :: l) ++ [y] := by simpa using h
        obtain ⟨as₁, b, as₂, rfl, hh, hb⟩ := ih (List.append_inj' hsplit rfl).1
        exact ⟨as₁, b, as₂ ++ [a], by simp, hh, hb⟩

/-- A `start` has been observed, and no `stop` after it. -/
def Since (start stop : O → Prop) (h : List O) : Prop :=
  ∃ h₁ o h₂, h = h₁ ++ o :: h₂ ∧ start o ∧ ∀ x ∈ h₂, ¬ stop x

@[simp] theorem since_nil (start stop : O → Prop) : ¬ Since start stop [] := by
  rintro ⟨h₁, o, h₂, h, -⟩
  simp at h

theorem since_concat (start stop : O → Prop) (h : List O) (x : O) :
    Since start stop (h ++ [x]) ↔ start x ∨ (Since start stop h ∧ ¬ stop x) := by
  constructor
  · rintro ⟨h₁, o, h₂, he, ho, hn⟩
    rcases List.eq_nil_or_concat h₂ with rfl | ⟨l, y, rfl⟩
    · have hlast := (List.append_inj' he rfl).2
      simp only [List.cons.injEq, and_true] at hlast
      exact Or.inl (hlast ▸ ho)
    · have hsplit : h ++ [x] = (h₁ ++ o :: l) ++ [y] := by simpa using he
      obtain ⟨hh, hx⟩ := List.append_inj' hsplit rfl
      simp only [List.cons.injEq, and_true] at hx
      refine Or.inr ⟨⟨h₁, o, l, hh, ho, fun z hz => hn z (by simp [hz])⟩, ?_⟩
      rw [hx]
      exact hn y (by simp)
  · rintro (hx | ⟨⟨h₁, o, h₂, rfl, ho, hn⟩, hx⟩)
    · exact ⟨h, x, [], rfl, hx, by simp⟩
    · refine ⟨h₁, o, h₂ ++ [x], by simp, ho, fun z hz => ?_⟩
      rcases List.mem_append.mp hz with hz | hz
      · exact hn z hz
      · rw [List.mem_singleton.mp hz]
        exact hx

theorem since_append {start stop : O → Prop} {h : List O} (hs : Since start stop h) (l : List O)
    (hl : ∀ x ∈ l, ¬ stop x) : Since start stop (h ++ l) := by
  obtain ⟨h₁, o, h₂, rfl, ho, hn⟩ := hs
  refine ⟨h₁, o, h₂ ++ l, by simp, ho, fun x hx => ?_⟩
  rcases List.mem_append.mp hx with hx | hx
  · exact hn x hx
  · exact hl x hx

theorem not_since_of_stop {start stop : O → Prop} (h : List O) {o : O} (hstop : stop o)
    (hstart : ¬ start o) (l : List O) (hl : ∀ x ∈ l, ¬ start x) :
    ¬ Since start stop (h ++ o :: l) := by
  induction l using List.reverseRecOn with
  | nil =>
    rw [since_concat]
    rintro (ho | ⟨-, ho⟩)
    · exact hstart ho
    · exact ho hstop
  | append_singleton l x ih =>
    have hsplit : h ++ o :: (l ++ [x]) = (h ++ o :: l) ++ [x] := by simp
    rw [hsplit, since_concat]
    rintro (hx | ⟨hs, -⟩)
    · exact hl x (by simp) hx
    · exact ih (fun y hy => hl y (by simp [hy])) hs

/-- What a `stop` at the end of `h` has cut off does not count. -/
theorem since_of_append {start stop : O → Prop} {h l : List O}
    (hcut : ∀ h₀ x, h = h₀ ++ [x] → stop x) (hs : Since start stop (h ++ l)) :
    Since start stop l ∨ ∃ h₀ x, h = h₀ ++ [x] ∧ start x := by
  induction l using List.reverseRecOn with
  | nil =>
    rw [List.append_nil] at hs
    obtain ⟨h₁, o, h₂, rfl, ho, hn⟩ := hs
    rcases List.eq_nil_or_concat h₂ with rfl | ⟨h₃, x, rfl⟩
    · exact Or.inr ⟨h₁, o, rfl, ho⟩
    · rw [List.concat_eq_append] at hcut hn
      have hx := hcut (h₁ ++ o :: h₃) x (by simp)
      exact absurd hx (hn x (by simp))
  | append_singleton l x ih =>
    rw [← List.append_assoc, since_concat] at hs
    rcases hs with hx | ⟨hs, hx⟩
    · exact Or.inl ((since_concat _ _ _ _).mpr (Or.inl hx))
    · rcases ih hs with hl | hr
      · exact Or.inl ((since_concat _ _ _ _).mpr (Or.inr ⟨hl, hx⟩))
      · exact Or.inr hr

theorem count_le_of_since [DecidableEq O] {a b : O} {stop : O → Prop} (hab : a ≠ b)
    {h : List O} (hb : ∀ h₁ h₂, h = h₁ ++ b :: h₂ → Since (· = a) stop h₁) (hstop : stop b) :
    (Since (· = a) stop h → h.count b + 1 ≤ h.count a) ∧ h.count b ≤ h.count a := by
  induction h using List.reverseRecOn with
  | nil => simp
  | append_singleton h x ih =>
    have hprev := ih fun h₁ h₂ he => hb h₁ (h₂ ++ [x]) (by simp [he])
    rw [since_concat, List.count_append, List.count_append, List.count_singleton,
      List.count_singleton]
    by_cases hxa : x = a
    · subst hxa
      simp [hab]
      omega
    · by_cases hxb : x = b
      · subst hxb
        have hopen := hprev.1 (hb h [] (by simp))
        simp [hxa, hstop]
        omega
      · simp [hxa, hxb]
        tauto

theorem countP_le_of_places {P : Type*} [DecidableEq P] (f g : O → Option P) {h : List O}
    (hle : ∀ i, h.countP (fun o => f o == some i) ≤ h.countP fun o => g o == some i) :
    h.countP (fun o => (f o).isSome) ≤ h.countP fun o => (g o).isSome := by
  rw [← List.length_filterMap_eq_countP, ← List.length_filterMap_eq_countP]
  refine (List.subperm_ext_iff.mpr fun i _ => ?_).length_le
  rw [List.count_filterMap, List.count_filterMap]
  exact hle i

end Runs
