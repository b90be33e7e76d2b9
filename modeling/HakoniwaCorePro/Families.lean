import HakoniwaCorePro.Runs

/-!
# Families of machines

Machines of one kind, one for each key, in one state. An action is for the machine of one key, or
for none of them. Whatever the interleaving, each machine runs as if it were alone.
-/

namespace Families

open Runs

variable {K S A : Type*} [DecidableEq K]

/-- The machine that the action is for makes its step. -/
def familyStep (key : A → Option K) (step : S → A → S) (m : K → S) (a : A) : K → S :=
  match key a with
  | none => m
  | some k => Function.update m k (step (m k) a)

variable {key : A → Option K} {step : S → A → S}

theorem familyStep_none {a : A} (h : key a = none) (m : K → S) : familyStep key step m a = m := by
  simp only [familyStep, h]

theorem familyStep_some {a : A} {k : K} (h : key a = some k) (m : K → S) :
    familyStep key step m a = Function.update m k (step (m k) a) := by
  simp only [familyStep, h]

theorem familyStep_other {a : A} {k : K} (h : key a ≠ some k) (m : K → S) :
    familyStep key step m a k = m k := by
  cases ha : key a with
  | none => rw [familyStep_none ha]
  | some j =>
    have hne : k ≠ j := fun heq => h (heq ▸ ha)
    rw [familyStep_some ha, Function.update_of_ne hne]

/-- In a run of the family, each machine is where its own actions take it. -/
theorem run_family (m : K → S) (as : List A) (k : K) :
    run (familyStep key step) m as k = run step (m k) (as.filter fun a => key a = some k) := by
  induction as generalizing m with
  | nil => rfl
  | cons a as ih =>
    rw [run_cons, ih]
    by_cases ha : key a = some k
    · rw [familyStep_some ha, Function.update_self, List.filter_cons_of_pos (by simpa using ha), run_cons]
    · rw [familyStep_other ha, List.filter_cons_of_neg (by simpa using ha)]

end Families
