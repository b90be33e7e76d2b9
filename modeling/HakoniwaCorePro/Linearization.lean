import HakoniwaCorePro.Runs
import Mathlib.Logic.Function.Basic

/-!
# Calls of an object that several threads share

A call is seen three times: when its thread enters it, at the one step that decides what it does
(`commit`), and when it returns. `Linearized` says that the calls are as good as atomic: served one
after another in the order of their commits they give the same answers, and every commit lies
between the beginning of its call and its return.
-/

namespace Linearization

open Runs

variable {T Q A S C X : Type*}

inductive Event (T Q A : Type*)
  | invoke (t : T) (q : Q)
  | commit (t : T) (q : Q) (a : A)
  | ret (t : T) (q : Q) (a : A)

def Event.thread : Event T Q A → T
  | .invoke t _ => t
  | .commit t _ _ => t
  | .ret t _ _ => t

/-- How far a thread is with its call. -/
inductive Phase (Q A : Type*)
  | outside
  | pending (q : Q)
  | done (q : Q) (a : A)

inductive Phase.Next : Phase Q A → Event T Q A → Phase Q A → Prop
  | invoke (t : T) (q : Q) : Next .outside (.invoke t q) (.pending q)
  | commit (t : T) (q : Q) (a : A) : Next (.pending q) (.commit t q a) (.done q a)
  | ret (t : T) (q : Q) (a : A) : Next (.done q a) (.ret t q a) .outside

theorem Phase.Next.of_commit {p p' : Phase Q A} {t : T} {q : Q} {a : A}
    (h : p.Next (.commit t q a) p') : p = .pending q := by
  cases h
  rfl

theorem Phase.Next.of_ret {p p' : Phase Q A} {t : T} {q : Q} {a : A}
    (h : p.Next (.ret t q a) p') : p = .done q a := by
  cases h
  rfl

/-- Only a commit has an effect, and its answer is that of the call served at once. -/
inductive Served (serve : S → T → Q → S × A) : S → Event T Q A → S → Prop
  | invoke (s : S) (t : T) (q : Q) : Served serve s (.invoke t q) s
  | commit (s : S) (t : T) (q : Q) : Served serve s (.commit t q (serve s t q).2) (serve s t q).1
  | ret (s : S) (t : T) (q : Q) (a : A) : Served serve s (.ret t q a) s

def calls (h : List (Event T Q A)) : List ((T × Q) × A) :=
  h.filterMap fun
    | .commit t q a => some ((t, q), a)
    | _ => none

@[simp] theorem calls_append (h l : List (Event T Q A)) : calls (h ++ l) = calls h ++ calls l :=
  List.filterMap_append

@[simp] theorem calls_commit (t : T) (q : Q) (a : A) : calls [.commit t q a] = [((t, q), a)] :=
  rfl

def serveAll (serve : S → T → Q → S × A) : S → List (T × Q) → S × List A
  | s, [] => (s, [])
  | s, c :: cs => ((serveAll serve (serve s c.1 c.2).1 cs).1,
      (serve s c.1 c.2).2 :: (serveAll serve (serve s c.1 c.2).1 cs).2)

theorem serveAll_concat (serve : S → T → Q → S × A) (s : S) (cs : List (T × Q)) (t : T) (q : Q) :
    serveAll serve s (cs ++ [(t, q)]) =
      ((serve (serveAll serve s cs).1 t q).1,
        (serveAll serve s cs).2 ++ [(serve (serveAll serve s cs).1 t q).2]) := by
  induction cs generalizing s with
  | nil => rfl
  | cons c cs ih =>
    have hrest := ih (serve s c.1 c.2).1
    simp only [List.cons_append, serveAll, hrest]

theorem serveAll_length (serve : S → T → Q → S × A) (s : S) (cs : List (T × Q)) :
    (serveAll serve s cs).2.length = cs.length := by
  induction cs generalizing s with
  | nil => rfl
  | cons c cs ih => simp [serveAll, ih]

/-- What every answer promises of the object, and no later call takes back, holds in the end. -/
theorem serveAll_promised {serve : S → T → Q → S × A} {I : S → Prop} {D : T → Q → Prop}
    {P : T → Q → A → S → Prop}
    (hkeep : ∀ s t q, I s → D t q → I (serve s t q).1)
    (hmake : ∀ s t q, I s → D t q → P t q (serve s t q).2 (serve s t q).1)
    (hhold : ∀ s t q t' q' a', I s → D t q → P t' q' a' s → P t' q' a' (serve s t q).1)
    {s : S} (hs : I s) (cs : List (T × Q)) (hd : ∀ c ∈ cs, D c.1 c.2) :
    I (serveAll serve s cs).1 ∧ ∀ x ∈ cs.zip (serveAll serve s cs).2,
      P x.1.1 x.1.2 x.2 (serveAll serve s cs).1 := by
  induction cs using List.reverseRecOn with
  | nil => exact ⟨hs, by simp⟩
  | append_singleton cs c ih =>
    obtain ⟨hi, hall⟩ := ih fun x hx => hd x (by simp [hx])
    have hdc : D c.1 c.2 := hd c (by simp)
    rw [show c = (c.1, c.2) from rfl, serveAll_concat,
      List.zip_append (serveAll_length serve s cs).symm]
    refine ⟨hkeep _ _ _ hi hdc, fun x hx => ?_⟩
    rcases List.mem_append.mp hx with hx | hx
    · exact hhold _ _ _ _ _ _ hi hdc (hall x hx)
    · obtain rfl : x = _ := by simpa using hx
      exact hmake _ _ _ hi hdc

/-- No event of the thread. -/
def Quiet (t : T) (l : List (Event T Q A)) : Prop := ∀ e ∈ l, e.thread ≠ t

theorem quiet_nil (t : T) : Quiet t ([] : List (Event T Q A)) := by
  simp [Quiet]

theorem quiet_concat {t : T} {l : List (Event T Q A)} {e : Event T Q A} (h : Quiet t l)
    (he : e.thread ≠ t) : Quiet t (l ++ [e]) := by
  intro x hx
  rcases List.mem_append.mp hx with hx | hx
  · exact h x hx
  · rw [List.mem_singleton.mp hx]
    exact he

/-- The call `q` of the thread is open after `h`, not yet committed. -/
def Entered (t : T) (q : Q) (h : List (Event T Q A)) : Prop :=
  ∃ u v, h = u ++ .invoke t q :: v ∧ Quiet t v

/-- The call `q` of the thread is open after `h`, and was committed with the answer `a`. -/
def Committed (t : T) (q : Q) (a : A) (h : List (Event T Q A)) : Prop :=
  ∃ u v w, h = u ++ .invoke t q :: (v ++ .commit t q a :: w) ∧ Quiet t v ∧ Quiet t w

/-- The calls seen in `h` are as good as atomic, from `s` to `s'`. -/
structure Linearized (serve : S → T → Q → S × A) (s : S) (h : List (Event T Q A)) (s' : S) : Prop where
  /-- One after another in the order of their commits they give these answers. -/
  legal : serveAll serve s ((calls h).map Prod.fst) = (s', (calls h).map Prod.snd)
  /-- Every commit is made by an open call. -/
  entered : ∀ h₁ h₂ t q a, h = h₁ ++ .commit t q a :: h₂ → Entered t q h₁
  /-- Every call that returns was committed since it began, with the answer it returns. -/
  committed : ∀ h₁ h₂ t q a, h = h₁ ++ .ret t q a :: h₂ → Committed t q a h₁

theorem mem_calls {h : List (Event T Q A)} {t : T} {q : Q} {a : A} :
    ((t, q), a) ∈ calls h ↔ .commit t q a ∈ h := by
  simp only [calls, List.mem_filterMap]
  constructor
  · rintro ⟨e, he, heq⟩
    cases e with
    | commit t' q' a' =>
      obtain ⟨⟨rfl, rfl⟩, rfl⟩ : (t' = t ∧ q' = q) ∧ a' = a := by simpa using heq
      exact he
    | _ => simp at heq
  · exact fun he => ⟨_, he, rfl⟩

theorem Linearized.invoked {serve : S → T → Q → S × A} {s s' : S} {h : List (Event T Q A)}
    (hl : Linearized serve s h s') {t : T} {q : Q} {a : A} (hc : .commit t q a ∈ h) :
    .invoke t q ∈ h := by
  obtain ⟨h₁, h₂, rfl⟩ := List.append_of_mem hc
  obtain ⟨u, v, rfl, -⟩ := hl.entered h₁ h₂ t q a rfl
  simp

theorem Linearized.promised {serve : S → T → Q → S × A} {I : S → Prop} {D : T → Q → Prop}
    {P : T → Q → A → S → Prop}
    (hkeep : ∀ s t q, I s → D t q → I (serve s t q).1)
    (hmake : ∀ s t q, I s → D t q → P t q (serve s t q).2 (serve s t q).1)
    (hhold : ∀ s t q t' q' a', I s → D t q → P t' q' a' s → P t' q' a' (serve s t q).1)
    {s s' : S} {h : List (Event T Q A)} (hl : Linearized serve s h s') (hs : I s)
    (hd : ∀ t q, .invoke t q ∈ h → D t q) :
    I s' ∧ ∀ t q a, .ret t q a ∈ h → P t q a s' := by
  have hcalls : ∀ c ∈ (calls h).map Prod.fst, D c.1 c.2 := by
    rintro ⟨t, q⟩ hc
    obtain ⟨⟨⟨t', q'⟩, a⟩, hmem, heq⟩ := List.mem_map.mp hc
    obtain ⟨rfl, rfl⟩ := Prod.mk.inj heq
    exact hd _ _ (hl.invoked (mem_calls.mp hmem))
  have hall := serveAll_promised hkeep hmake hhold hs _ hcalls
  rw [hl.legal] at hall
  refine ⟨hall.1, fun t q a hr => ?_⟩
  obtain ⟨h₁, h₂, heq⟩ := List.append_of_mem hr
  obtain ⟨u, v, w, hu, -, -⟩ := hl.committed h₁ h₂ t q a heq
  have hcommit : .commit t q a ∈ h := by simp [heq, hu]
  have hzip : calls h = ((calls h).map Prod.fst).zip ((calls h).map Prod.snd) :=
    List.zip_of_prod rfl rfl
  refine hall.2 ((t, q), a) ?_
  rw [← hzip]
  exact mem_calls.mpr hcommit

/-- What an observer keeps: the object with every committed call served, and the phases. -/
structure Monitor (S T Q A : Type*) where
  state : S
  phase : T → Phase Q A

inductive Accepts [DecidableEq T] (serve : S → T → Q → S × A) (m : Monitor S T Q A) :
    List (Event T Q A) → Monitor S T Q A → Prop
  | nil : Accepts serve m [] m
  | concat {h : List (Event T Q A)} {m' : Monitor S T Q A} {e : Event T Q A} {s : S}
      {p : Phase Q A} (hm : Accepts serve m h m') (hs : Served serve m'.state e s)
      (hp : (m'.phase e.thread).Next e p) :
      Accepts serve m (h ++ [e]) ⟨s, Function.update m'.phase e.thread p⟩

def Recorded (t : T) (h : List (Event T Q A)) : Phase Q A → Prop
  | .outside => True
  | .pending q => Entered t q h
  | .done q a => Committed t q a h

theorem Recorded.concat {t : T} {h : List (Event T Q A)} {e : Event T Q A} (he : e.thread ≠ t)
    {p : Phase Q A} (hr : Recorded t h p) : Recorded t (h ++ [e]) p := by
  cases p with
  | outside => trivial
  | pending q =>
    obtain ⟨u, v, rfl, hv⟩ := hr
    exact ⟨u, v ++ [e], by simp, quiet_concat hv he⟩
  | done q a =>
    obtain ⟨u, v, w, rfl, hv, hw⟩ := hr
    exact ⟨u, v, w ++ [e], by simp, hv, quiet_concat hw he⟩

theorem Recorded.next {h : List (Event T Q A)} {e : Event T Q A} {p p' : Phase Q A}
    (hr : Recorded e.thread h p) (hp : p.Next e p') : Recorded e.thread (h ++ [e]) p' := by
  cases hp with
  | invoke t q => exact ⟨h, [], rfl, quiet_nil t⟩
  | commit t q a =>
    obtain ⟨u, v, rfl, hv⟩ := hr
    exact ⟨u, v, [], by simp [Event.thread], hv, quiet_nil t⟩
  | ret t q a => trivial

section Observed

variable [DecidableEq T] {serve : S → T → Q → S × A}

theorem Accepts.append {m₁ m₂ m₃ : Monitor S T Q A} {h l : List (Event T Q A)}
    (h₁ : Accepts serve m₁ h m₂) (h₂ : Accepts serve m₂ l m₃) : Accepts serve m₁ (h ++ l) m₃ := by
  induction h₂ with
  | nil => simpa using h₁
  | concat _ hs hp ih =>
    rw [← List.append_assoc]
    exact ih.concat hs hp

theorem Accepts.legal {m m' : Monitor S T Q A} {h : List (Event T Q A)}
    (hm : Accepts serve m h m') :
    serveAll serve m.state ((calls h).map Prod.fst) = (m'.state, (calls h).map Prod.snd) := by
  induction hm with
  | nil => rfl
  | concat _ hs _ ih =>
    cases hs with
    | invoke => simpa [calls] using ih
    | ret => simpa [calls] using ih
    | commit =>
      simp only [calls_append, calls_commit, List.map_append, List.map_cons, List.map_nil]
      rw [serveAll_concat, ih]

theorem Accepts.recorded {m m' : Monitor S T Q A} {h : List (Event T Q A)}
    (hm : Accepts serve m h m') (h0 : ∀ t, m.phase t = .outside) (t : T) :
    Recorded t h (m'.phase t) := by
  induction hm with
  | nil =>
    rw [h0 t]
    trivial
  | @concat h m' e s p _ _ hp ih =>
    by_cases ht : e.thread = t
    · subst ht
      simpa using ih.next hp
    · simpa [Function.update_of_ne (Ne.symm ht)] using ih.concat ht

theorem Accepts.cut {m m' : Monitor S T Q A} {h h₁ h₂ : List (Event T Q A)} {e : Event T Q A}
    (hm : Accepts serve m h m') (hh : h = h₁ ++ e :: h₂) :
    ∃ m₁ p, Accepts serve m h₁ m₁ ∧ (m₁.phase e.thread).Next e p := by
  induction hm generalizing h₂ with
  | nil => simp at hh
  | @concat h m' x s p hm hs hp ih =>
    rcases List.eq_nil_or_concat h₂ with rfl | ⟨l, y, rfl⟩
    · obtain ⟨rfl, hx⟩ := List.append_inj' hh rfl
      obtain rfl : x = e := by simpa using hx
      exact ⟨m', p, hm, hp⟩
    · have hsplit : h ++ [x] = (h₁ ++ e :: l) ++ [y] := by simpa using hh
      exact ih (List.append_inj' hsplit rfl).1

theorem Accepts.linearized {m m' : Monitor S T Q A} {h : List (Event T Q A)}
    (hm : Accepts serve m h m') (h0 : ∀ t, m.phase t = .outside) :
    Linearized serve m.state h m'.state := by
  refine ⟨hm.legal, fun h₁ h₂ t q a hh => ?_, fun h₁ h₂ t q a hh => ?_⟩
  · obtain ⟨m₁, p, hm₁, hp⟩ := hm.cut hh
    have hr := hm₁.recorded h0 t
    rwa [show m₁.phase t = _ from hp.of_commit] at hr
  · obtain ⟨m₁, p, hm₁, hp⟩ := hm.cut hh
    have hr := hm₁.recorded h0 t
    rwa [show m₁.phase t = _ from hp.of_ret] at hr

theorem accepts_run {step : C → X → C} {seen : C → X → List (Event T Q A)}
    {R : C → Monitor S T Q A → Prop}
    (hstep : ∀ c m x, R c m → ∃ m', Accepts serve m (seen c x) m' ∧ R (step c x) m') {c : C}
    {m : Monitor S T Q A} (h : R c m) (xs : List X) :
    ∃ m', Accepts serve m (history step seen c xs) m' ∧ R (run step c xs) m' := by
  induction xs generalizing c m with
  | nil => exact ⟨m, .nil, h⟩
  | cons x xs ih =>
    obtain ⟨m₁, hacc, hr⟩ := hstep c m x h
    obtain ⟨m₂, hrest, hr'⟩ := ih hr
    exact ⟨m₂, by simpa using hacc.append hrest, hr'⟩

end Observed

end Linearization
