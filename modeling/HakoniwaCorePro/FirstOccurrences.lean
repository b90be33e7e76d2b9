import Mathlib.Data.List.Induction
import Mathlib.Data.List.Nodup
import Mathlib.Tactic.Common

/-!
# First occurrences

A loop that keeps an element exactly if its key has not been seen before keeps, of each key, the
first element that has it. `Collected` is the invariant of such a loop.
-/

namespace FirstOccurrences

variable {α κ : Type*} [DecidableEq κ] (key : α → κ)

/-- Of each key, the first element of the list that has it. -/
def firsts (l : List α) : List α := l.eraseDupsBy fun a b => decide (key a = key b)

@[simp] theorem firsts_nil : firsts key [] = [] := rfl

theorem firsts_cons (a : α) (l : List α) :
    firsts key (a :: l) = a :: firsts key (l.filter fun b => decide (key b ≠ key a)) := by
  simp [firsts, List.eraseDupsBy_cons]

/-- The list is walked by deleting from its tail what has the key of its head. -/
theorem firsts_induction {motive : List α → Prop} (nil : motive [])
    (cons : ∀ a l, motive (l.filter fun b => decide (key b ≠ key a)) → motive (a :: l))
    (l : List α) : motive l := by
  cases l with
  | nil => exact nil
  | cons a l => exact cons a l (firsts_induction nil cons _)
termination_by l.length
decreasing_by
  have hle := List.length_filter_le (fun b => decide (key b ≠ key a)) l
  simp only [List.length_cons]
  omega

theorem firsts_sublist (l : List α) : (firsts key l).Sublist l := by
  induction l using firsts_induction key with
  | nil => exact List.Sublist.refl _
  | cons a l ih =>
    rw [firsts_cons]
    exact (ih.trans List.filter_sublist).cons_cons a

theorem mem_map_firsts (l : List α) (k : κ) : k ∈ (firsts key l).map key ↔ k ∈ l.map key := by
  induction l using firsts_induction key with
  | nil => rfl
  | cons a l ih =>
    rw [firsts_cons, List.map_cons, List.mem_cons, ih, List.map_cons, List.mem_cons]
    by_cases hk : k = key a
    · simp [hk]
    · simp only [hk, false_or, List.mem_map, List.mem_filter, decide_eq_true_eq]
      constructor
      · rintro ⟨b, ⟨hb, -⟩, he⟩
        exact ⟨b, hb, he⟩
      · rintro ⟨b, hb, rfl⟩
        exact ⟨b, ⟨hb, hk⟩, rfl⟩

theorem nodup_map_firsts (l : List α) : ((firsts key l).map key).Nodup := by
  induction l using firsts_induction key with
  | nil => exact List.nodup_nil
  | cons a l ih =>
    rw [firsts_cons, List.map_cons, List.nodup_cons]
    refine ⟨?_, ih⟩
    rw [mem_map_firsts]
    simp

theorem firsts_filter (p : κ → Bool) (l : List α) :
    firsts key (l.filter fun a => p (key a)) = (firsts key l).filter fun a => p (key a) := by
  induction l using firsts_induction key with
  | nil => rfl
  | cons a l ih =>
    rw [firsts_cons, List.filter_cons, List.filter_cons, ← ih]
    cases hp : p (key a) with
    | true =>
      simp only [if_true, firsts_cons, List.filter_filter]
      simp only [Bool.and_comm]
    | false =>
      simp only [Bool.false_eq_true, if_false, List.filter_filter]
      congr 1
      refine List.filter_congr fun b _ => ?_
      by_cases hb : key b = key a <;> simp [hb, hp]

theorem firsts_append (l m : List α) :
    firsts key (l ++ m) = firsts key l ++ (firsts key m).filter fun a => decide (key a ∉ l.map key) := by
  induction l using firsts_induction key generalizing m with
  | nil => simp
  | cons a l ih =>
    rw [List.cons_append, firsts_cons, List.filter_append, ih, firsts_cons,
      firsts_filter key (fun k => decide (k ≠ key a)) m, List.filter_filter, List.cons_append]
    congr 2
    refine List.filter_congr fun b _ => ?_
    by_cases hb : key b = key a
    · simp [hb]
    · simp only [hb, List.map_cons, List.mem_cons, false_or, List.mem_map, List.mem_filter,
        decide_eq_true_eq, ne_eq, not_false_eq_true, decide_true, Bool.and_true, decide_eq_decide,
        not_iff_not]
      constructor
      · rintro ⟨c, ⟨hc, -⟩, he⟩
        exact ⟨c, hc, he⟩
      · rintro ⟨c, hc, he⟩
        exact ⟨c, ⟨hc, fun h => hb (he ▸ h)⟩, he⟩

theorem firsts_eq_self_iff (l : List α) : firsts key l = l ↔ (l.map key).Nodup := by
  constructor
  · intro h
    rw [← h]
    exact nodup_map_firsts key l
  · intro h
    induction l with
    | nil => rfl
    | cons a l ih =>
      rw [List.map_cons, List.nodup_cons] at h
      have hkeep : l.filter (fun b => decide (key b ≠ key a)) = l := by
        refine List.filter_eq_self.mpr fun b hb => ?_
        have hne : key b ≠ key a := fun he => h.1 (he ▸ List.mem_map_of_mem hb)
        simpa using hne
      rw [firsts_cons, hkeep, ih h.2]

theorem mem_firsts_iff (l : List α) (a : α) :
    a ∈ firsts key l ↔ ∃ l₁ l₂, l = l₁ ++ a :: l₂ ∧ key a ∉ l₁.map key := by
  constructor
  · intro h
    induction l using List.reverseRecOn with
    | nil => simp at h
    | append_singleton l b ih =>
      rw [firsts_append, List.mem_append] at h
      rcases h with h | h
      · obtain ⟨l₁, l₂, rfl, hkey⟩ := ih h
        exact ⟨l₁, l₂ ++ [b], by simp, hkey⟩
      · have hb : a = b ∧ key a ∉ l.map key := by simpa [firsts_cons] using h
        obtain ⟨rfl, hkey⟩ := hb
        exact ⟨l, [], rfl, hkey⟩
  · rintro ⟨l₁, l₂, rfl, hkey⟩
    rw [firsts_append, List.mem_append, firsts_cons]
    right
    simp [List.mem_filter] at hkey ⊢
    exact hkey

theorem firsts_congr {κ' : Type*} [DecidableEq κ'] {key' : α → κ'}
    (h : ∀ a b, key' a = key' b ↔ key a = key b) (l : List α) : firsts key' l = firsts key l := by
  unfold firsts
  congr 1
  funext a b
  exact decide_eq_decide.mpr (h a b)

/-- What a loop holds after `l`: the elements kept, and the keys it has seen. -/
structure Collected (l kept : List α) (seen : List κ) : Prop where
  kept_eq : kept = firsts key l
  mem_seen : ∀ k, k ∈ seen ↔ k ∈ l.map key

variable {key}

theorem collected_nil : Collected key [] [] [] := ⟨rfl, fun _ => Iff.rfl⟩

theorem Collected.skip {l kept : List α} {seen : List κ} {a : α} (h : Collected key l kept seen)
    (ha : key a ∈ seen) : Collected key (l ++ [a]) kept seen where
  kept_eq := by
    have hold : ∃ b ∈ l, key b = key a := by simpa using (h.mem_seen _).mp ha
    rw [firsts_append, h.kept_eq]
    simpa [firsts_cons] using hold
  mem_seen k := by
    rw [h.mem_seen, List.map_append, List.mem_append]
    refine ⟨Or.inl, fun hk => hk.elim id fun hk => ?_⟩
    obtain rfl : k = key a := by simpa using hk
    exact (h.mem_seen _).mp ha

theorem Collected.keep {l kept : List α} {seen : List κ} {a : α} (h : Collected key l kept seen)
    (ha : key a ∉ seen) : Collected key (l ++ [a]) (kept ++ [a]) (key a :: seen) where
  kept_eq := by
    have hnew : ∀ b ∈ l, key b ≠ key a := by simpa using mt (h.mem_seen _).mpr ha
    rw [firsts_append, h.kept_eq]
    simp [firsts_cons, List.filter_cons]
    exact hnew
  mem_seen k := by
    rw [List.mem_cons, h.mem_seen, List.map_append, List.mem_append]
    simp [or_comm]

end FirstOccurrences
